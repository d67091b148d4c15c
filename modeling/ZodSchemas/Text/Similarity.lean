import ZodSchemas.Text.CodePoint

/-!
# Similar texts

Two texts are as similar as the runs that they have in common are long: the
longest run that both hold, and then the same on either side of it. A text is
close to another when these runs make up three fifths of both.
-/

namespace ZodSchemas.Similarity

/-- The length of the longest start that two texts share. -/
def sharedStart : Text → Text → Nat
  | c :: s, d :: t => if c = d then sharedStart s t + 1 else 0
  | _, _ => 0

/-- A run that two texts share: where it starts in each and how long it is. -/
structure Run where
  /-- Where it starts in the first text. -/
  first : Nat
  /-- Where it starts in the second text. -/
  second : Nat
  /-- Its length. -/
  length : Nat

/-- The longest run that two texts share; of equally long ones the leftmost. -/
def longestRun (s t : Text) : Run :=
  (List.range s.length).foldl (fun best i =>
    (List.range t.length).foldl (fun best j =>
      let n := sharedStart (s.drop i) (t.drop j)
      if best.length < n then ⟨i, j, n⟩ else best) best) ⟨0, 0, 0⟩

/-- The number of code points in common runs; `fuel` bounds the runs beside one another. -/
def commonWithin : Nat → Text → Text → Nat
  | 0, _, _ => 0
  | fuel + 1, s, t =>
    let run := longestRun s t
    if run.length = 0 then 0
    else
      run.length + commonWithin fuel (s.take run.first) (t.take run.second) +
        commonWithin fuel (s.drop (run.first + run.length)) (t.drop (run.second + run.length))

/-- The number of code points in common runs. -/
def common (s t : Text) : Nat := commonWithin (s.length + 1) s t

/-- Whether a text is close to another. -/
def isClose (s t : Text) : Bool := 3 * (s.length + t.length) ≤ 10 * common s t

end ZodSchemas.Similarity
