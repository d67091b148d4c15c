import Mathlib.Data.List.Infix
import ZodSchemas.Json.Reader
import ZodSchemas.Proofs.Endings

/-!
# Refused numbers

A text that keeps the rules of JSON is refused only for an integer with more
digits than are converted; the digits stand in the text in a row.
-/

namespace ZodSchemas.Json

/-- Where reading a text may stop. -/
def IsStop (t : Text) : Stop → Prop
  | .malformed _ _ => True
  | .tooManyDigits digits => Numeral.HasLongRun digits t

/-- What is read from a text leaves an end of it, and it stops at what the text holds. -/
def Reads {α : Type} (t : Text) (x : Except Stop (α × Text)) : Prop :=
  EndsIn (IsStop t) (fun r => r.2 <:+ t) x

variable {s t : Text} {α β : Type}

namespace Reads

theorem malformed {problem : Problem} {rest : Text} :
    Reads t (.error (.malformed problem rest) : Except Stop (α × Text)) := trivial

/-- What goes on from an end of a text goes on from the text. -/
theorem of_suffix {x : Except Stop (α × Text)} (hx : Reads s x) (h : s <:+ t) : Reads t x := by
  refine hx.imp (fun stop hstop => ?_) fun _ hr => hr.trans h
  cases stop with
  | malformed problem rest => trivial
  | tooManyDigits digits => exact hstop.of_infix h.isInfix

/-- The next part is read from what the first one leaves. -/
theorem bind {x : Except Stop (α × Text)} {f : α × Text → Except Stop (β × Text)}
    (hx : Reads t x) (hf : ∀ r, Reads r.2 (f r)) : Reads t (x >>= f) :=
  EndsIn.bind hx fun r hr => (hf r).of_suffix hr

end Reads

theorem skipBlanks_suffix (t : Text) : skipBlanks t <:+ t := List.dropWhile_suffix isBlank

/-! ### Strings -/

theorem reads_readUnits (opening t : Text) : Reads t (readUnits opening t) := by
  -- code points that are read in front of others
  have hunit : ∀ {s : Text} (c : CodePoint), Reads s (readUnits opening s) →
      Reads s (readUnits opening s >>= fun r => .ok (c :: r.1, r.2)) :=
    fun c ih => ih.bind fun r => List.suffix_refl _
  fun_induction readUnits opening t with
  | case2 rest => exact List.suffix_cons _ _
  | case4 h₁ h₂ h₃ h₄ next after unit _ _ ih =>
    exact (hunit unit ih).of_suffix ⟨[_, _, _, _, _, _], rfl⟩
  | case7 letter tail _ unit _ _ ih => exact (hunit unit ih).of_suffix ⟨[_, _], rfl⟩
  | case10 c rest _ _ _ ih => exact (hunit c ih).of_suffix (List.suffix_cons _ _)
  | _ => exact .malformed

theorem reads_readText (t : Text) : Reads t (readText t) :=
  ((reads_readUnits t (t.drop 1)).of_suffix (List.drop_suffix 1 t)).bind fun _ =>
    List.suffix_refl _

/-! ### Numbers -/

theorem splitFraction_suffix (t : Text) : (splitFraction t).2 <:+ t := by
  unfold splitFraction
  split
  · split
    · exact (List.dropWhile_suffix _).trans (List.suffix_cons _ _)
    · exact List.suffix_refl _
  · exact List.suffix_refl _

theorem splitExponent_suffix (t : Text) : (splitExponent t).2 <:+ t := by
  unfold splitExponent
  split
  · next letter rest =>
    split
    · rcases rest with _ | ⟨sign, tail⟩
      · exact List.suffix_refl _
      · dsimp only
        split
        · -- the digits stand behind a sign or at once
          have hdigits : (if sign = ('-' : CodePoint) then (true, tail)
              else if sign = ('+' : CodePoint) then (false, tail) else (false, sign :: tail)).2
                <:+ sign :: tail := by
            split
            · exact List.suffix_cons _ _
            · split
              · exact List.suffix_cons _ _
              · exact List.suffix_refl _
          exact (List.dropWhile_suffix _).trans (hdigits.trans (List.suffix_cons _ _))
        · exact List.suffix_refl _
    · exact List.suffix_refl _
  · exact List.suffix_refl _

theorem splitWhole_suffix (t : Text) : (splitWhole t).2 <:+ t := by
  unfold splitWhole
  split
  · split
    · exact List.suffix_cons _ _
    · exact List.dropWhile_suffix _
  · exact List.suffix_refl _

/-- The integer part stands in front. -/
theorem splitWhole_isInFront (t : Text) : (splitWhole t).1 <+: t := by
  unfold splitWhole
  split
  · next c rest =>
    split
    · exact ⟨rest, rfl⟩
    · exact List.takeWhile_prefix _
  · exact List.prefix_refl _

/-- Only a text of decimal digits denotes a number. -/
theorem all_isDigit_of_decimal? {n : Nat} (h : Numeral.decimal? t = some n) :
    t.all CodePoint.isDigit = true := by
  rw [Numeral.decimal?] at h
  split at h
  · cases h
  · split at h
    · assumption
    · cases h

/-- Too many digits of an integer stand in a row. -/
theorem reads_readNumber (t : Text) : Reads t (readNumber t) := by
  unfold readNumber
  rcases t with _ | ⟨sign, rest⟩
  · exact .malformed
  · dsimp only
    have hunsigned : (if sign = ('-' : CodePoint) then (true, rest)
        else (false, sign :: rest)).2 <:+ sign :: rest := by
      split
      · exact List.suffix_cons _ _
      · exact List.suffix_refl _
    generalize (if sign = ('-' : CodePoint) then (true, rest)
      else (false, sign :: rest)) = signed at hunsigned ⊢
    split
    · exact .malformed
    · next n hn =>
      have hdigits := all_isDigit_of_decimal? hn
      have hrest := (splitExponent_suffix _).trans ((splitFraction_suffix _).trans
        ((splitWhole_suffix signed.2).trans hunsigned))
      split
      · split
        · next hlimit =>
          have hrun := (splitWhole_isInFront signed.2).isInfix.trans hunsigned.isInfix
          exact ⟨hlimit, _, hrun, rfl, hdigits⟩
        · exact hrest
      · exact hrest

theorem reads_readAtom (t : Text) : Reads t (readAtom t) := by
  rw [readAtom]
  split
  · next reading h =>
    obtain ⟨⟨word, v⟩, -, hword⟩ := List.exists_of_findSome?_eq_some h
    obtain ⟨rest, hrest, rfl⟩ := Option.map_eq_some_iff.mp hword
    exact ⟨word, List.isPrefixOf?_eq_some_iff_append_eq.mp hrest⟩
  · exact reads_readNumber t

/-! ### Values -/

/-- Values of at most some parts, and the parts of containers, are read on and stop at what the
text holds. -/
structure ReadsWithin (fuel : Nat) : Prop where
  value (t : Text) : Reads t (readValue fuel t)
  items (t : Text) : Reads t (readItems fuel t)
  entries (t : Text) : Reads t (readEntries fuel t)

namespace ReadsWithin

variable {fuel : Nat}

theorem value_succ (h : ReadsWithin fuel) (t : Text) : Reads t (readValue (fuel + 1) t) := by
  rcases t with _ | ⟨c, rest⟩
  · exact .malformed
  rw [readValue]
  have hrest := (skipBlanks_suffix rest).trans (List.suffix_cons c rest)
  split
  · exact (reads_readText _).bind fun r => List.suffix_refl _
  split
  · split
    · exact .malformed
    · next d after hd =>
      rw [hd] at hrest
      split
      · exact (List.suffix_cons d after).trans hrest
      · exact ((h.entries _).of_suffix hrest).bind fun r => List.suffix_refl _
  split
  · split
    · exact .malformed
    · next d after hd =>
      rw [hd] at hrest
      split
      · exact (List.suffix_cons d after).trans hrest
      · exact ((h.items _).of_suffix hrest).bind fun r => List.suffix_refl _
  · exact reads_readAtom _

theorem items_succ (h : ReadsWithin fuel) (t : Text) : Reads t (readItems (fuel + 1) t) := by
  rw [readItems]
  refine (h.value t).bind fun r => ?_
  have hrest := skipBlanks_suffix r.2
  dsimp only
  split
  · exact .malformed
  · next c after hc =>
    rw [hc] at hrest
    have hafter := (List.suffix_cons c after).trans hrest
    split
    · exact hafter
    · split
      · exact ((h.items _).of_suffix ((skipBlanks_suffix after).trans hafter)).bind fun r' =>
          List.suffix_refl _
      · exact .malformed

theorem entries_succ (h : ReadsWithin fuel) (t : Text) : Reads t (readEntries (fuel + 1) t) := by
  rcases t with _ | ⟨quote, tail⟩
  · exact .malformed
  rw [readEntries]
  split
  · refine (reads_readText _).bind fun r => ?_
    have hrest := skipBlanks_suffix r.2
    dsimp only
    split
    · exact .malformed
    · next colon after hcolon =>
      rw [hcolon] at hrest
      have hafter := (skipBlanks_suffix after).trans ((List.suffix_cons colon after).trans hrest)
      split
      · refine ((h.value _).of_suffix hafter).bind fun r' => ?_
        have hrest' := skipBlanks_suffix r'.2
        split
        · exact .malformed
        · next c after' hc =>
          rw [hc] at hrest'
          have hafter' := (List.suffix_cons c after').trans hrest'
          split
          · exact hafter'
          · split
            · exact ((h.entries _).of_suffix ((skipBlanks_suffix after').trans hafter')).bind
                fun r'' => List.suffix_refl _
            · exact .malformed
      · exact .malformed
  · exact .malformed

theorem all (fuel : Nat) : ReadsWithin fuel := by
  induction fuel with
  | zero => constructor <;> exact fun _ => .malformed
  | succ fuel ih => exact ⟨ih.value_succ, ih.items_succ, ih.entries_succ⟩

end ReadsWithin

/-- A text that keeps the rules of JSON is refused only for a long integer. -/
theorem of_read_eq_error {e : ReadError} (h : read t = .error e) :
    (∃ problem line column offset, e = .malformed problem line column offset) ∨
      ∃ digits, e = .tooManyDigits digits ∧ Numeral.HasLongRun digits t := by
  have hwhole : EndsIn (IsStop t) (fun _ => True) (readDocument.readWhole t) := by
    have hvalue := ((ReadsWithin.all (t.length + 1)).value _).of_suffix (skipBlanks_suffix t)
    refine EndsIn.bind hvalue fun r hr => ?_
    dsimp only
    split <;> trivial
  have hdocument : EndsIn (IsStop t) (fun _ => True) (readDocument t) := by
    unfold readDocument
    split
    · split
      · trivial
      · exact hwhole
    · exact hwhole
  rw [read] at h
  rcases hstop : readDocument t with stop | v <;> rw [hstop] at h hdocument
  · cases stop with
    | malformed problem rest =>
      cases h
      exact .inl ⟨_, _, _, _, rfl⟩
    | tooManyDigits digits =>
      cases h
      exact .inr ⟨digits, rfl, hdocument⟩
  · cases h

end ZodSchemas.Json
