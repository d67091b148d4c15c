import Mathlib.Data.List.Chain
import ZodSchemas.Text.Lines

/-!
# Paragraphs

A text falls into paragraphs at pairs of line feeds. A solid text has no such
pair and no line feed at either end, so solid texts are put together without a
new pair, and solid texts with pairs of line feeds between them are the
paragraphs of the whole. Indented text is solid whatever it says: every line
feed in it has blanks behind it.
-/

namespace ZodSchemas.Lines

/-- A text without pairs of line feeds and without line feeds at its ends. -/
structure IsSolid (t : Text) : Prop where
  /-- No two line feeds are neighbours. -/
  inside : t.IsChain fun c d => ¬(c = lineFeed ∧ d = lineFeed)
  /-- The text does not start with a line feed. -/
  first : t.head? ≠ some lineFeed
  /-- The text does not end with a line feed. -/
  last : t.getLast? ≠ some lineFeed

/-- A single line is solid. -/
theorem isSolid_of_not_mem {t : Text} (h : lineFeed ∉ t) : IsSolid t where
  inside := List.isChain_iff_forall_rel_of_append_cons_cons.mpr fun {c d front back} ht hcd =>
    h (by simp [ht, hcd.1])
  first hc := h (List.mem_of_mem_head? hc)
  last hc := h (List.mem_of_mem_getLast? hc)

/-- Solid texts make a solid text. -/
theorem IsSolid.append {a b : Text} (ha : IsSolid a) (hb : IsSolid b) : IsSolid (a ++ b) where
  inside := ha.inside.append hb.inside fun c hc _ _ hcd => ha.last (hcd.1 ▸ hc)
  first := by simp [List.head?_append, Option.or_eq_some_iff, ha.first, hb.first]
  last := by simp [List.getLast?_append, Option.or_eq_some_iff, ha.last, hb.last]

/-- Solid texts on lines below each other make a solid text. -/
theorem IsSolid.below {a b : Text} (ha : IsSolid a) (hb : IsSolid b) (hna : a ≠ [])
    (hnb : b ≠ []) : IsSolid (a ++ lineFeed :: b) where
  inside := by
    refine ha.inside.append (hb.inside.cons fun d hd hcd => hb.first (hcd.2 ▸ hd)) ?_
    exact fun c hc _ _ hcd => ha.last (hcd.1 ▸ hc)
  first := by
    obtain ⟨c, rest, rfl⟩ := List.exists_cons_of_ne_nil hna
    simpa using ha.first
  last := by
    obtain ⟨c, rest, rfl⟩ := List.exists_cons_of_ne_nil hnb
    simpa [List.getLast?_append] using hb.last

/-- Solid texts with a solid text between neighbours make a solid text. -/
theorem isSolid_intercalate {between : Text} {parts : List Text} (hs : IsSolid between)
    (h : ∀ p ∈ parts, IsSolid p) : IsSolid (List.intercalate between parts) := by
  induction parts with
  | nil => exact isSolid_of_not_mem (by simp)
  | cons p rest ih =>
    have hp := h p (by simp)
    cases rest with
    | nil => simpa using hp
    | cons q rest =>
      rw [List.intercalate_cons_cons]
      exact (hp.append hs).append (ih fun r hr => h r (List.mem_cons_of_mem _ hr))

/-- Behind the first line each line starts with a line feed. -/
theorem join_cons (line : Text) (lines : List Text) :
    join (line :: lines) = line ++ lines.flatMap (lineFeed :: ·) := by
  induction lines generalizing line with
  | nil => simp [join]
  | cons next rest ih =>
    have hj : join (line :: next :: rest) = line ++ lineFeed :: join (next :: rest) := by
      simp [join]
    rw [hj, ih, List.flatMap_cons, List.cons_append]

/-- Indentation puts blanks in front of the text and behind each of its line feeds. -/
theorem indent_eq (level : Int) (t : Text) :
    indent level t = blanks level ++
      t.flatMap fun c => if c = lineFeed then lineFeed :: blanks level else [c] := by
  induction t with
  | nil => simp [indent, split, join]
  | cons c rest ih =>
    obtain ⟨line, lines, hs⟩ := List.exists_cons_of_ne_nil (List.splitOn_ne_nil lineFeed rest)
    rw [indent, split, hs, List.map_cons, join_cons, List.append_assoc,
      List.append_cancel_left_eq] at ih
    rw [indent, split, List.splitOn_cons_eq_if_modifyHead, hs, List.flatMap_cons, ← ih]
    by_cases hc : c = lineFeed
    · simp [hc, join_cons]
    · simp [hc, join_cons]

/-- There are blanks at every level above zero. -/
theorem blanks_ne_nil {level : Int} (h : 0 < level) : blanks level ≠ [] := by
  simp [blanks]
  omega

/-- Blanks are solid. -/
theorem isSolid_blanks (level : Int) : IsSolid (blanks level) :=
  isSolid_of_not_mem fun h => absurd (List.eq_of_mem_replicate h) (by decide)

/-- Solid text goes on solidly behind line feeds that blanks follow. -/
theorem IsSolid.append_flatMap {level : Int} (hl : 0 < level) {front : Text}
    (hf : IsSolid front) (hne : front ≠ []) (t : Text) :
    IsSolid (front ++
      t.flatMap fun c => if c = lineFeed then lineFeed :: blanks level else [c]) := by
  induction t generalizing front with
  | nil => simpa using hf
  | cons c rest ih =>
    rw [List.flatMap_cons, ← List.append_assoc]
    by_cases hc : c = lineFeed
    · rw [if_pos hc, List.append_assoc, List.cons_append]
      exact hf.below (ih (isSolid_blanks level) (blanks_ne_nil hl)) hne (by simp [blanks_ne_nil hl])
    · rw [if_neg hc]
      exact ih (hf.append (isSolid_of_not_mem (by simpa using Ne.symm hc))) (by simp)

/-- Indented text is solid, whatever it says. -/
theorem isSolid_indent {level : Int} (h : 0 < level) (t : Text) : IsSolid (indent level t) := by
  rw [indent_eq]
  exact (isSolid_blanks level).append_flatMap h (blanks_ne_nil h) t

/-- Indented text is not empty. -/
theorem indent_ne_nil {level : Int} (h : 0 < level) (t : Text) : indent level t ≠ [] := by
  simp [indent_eq, blanks_ne_nil h]

end ZodSchemas.Lines
