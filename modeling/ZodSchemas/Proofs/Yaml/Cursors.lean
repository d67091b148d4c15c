import Mathlib.Algebra.Group.Nat.Defs
import Mathlib.Data.List.Infix
import ZodSchemas.Proofs.Endings
import ZodSchemas.Yaml.Scalar

/-!
# What is left of a text

Whatever is read from a text, an end of the text is left behind it. So a fault
that is met behind some cursor is one of the text: a broken rule, an escape of
eight digits whose number is beyond all code points, or a version number with
too many digits. Nothing else goes wrong while tokens are cut.
-/

namespace ZodSchemas

/-- Only one code point has the character, unless it is the one that stands for surrogates. -/
theorem CodePoint.eq_of_char {c : CodePoint} {a : Char} (h : c.char = a) (hne : a ≠ '\ufffd') :
    c = .ofChar a := by
  by_cases hvalid : c.value.isValidChar
  · rw [char, dif_pos hvalid] at h
    subst h
    exact CodePoint.mk.injEq .. |>.mpr rfl
  · rw [char, dif_neg hvalid] at h
    exact absurd h.symm hne

/-- Digits below a base denote a number below its power. -/
theorem Numeral.valueOf_lt {base : Nat} {digits : List Nat} (h : ∀ d ∈ digits, d < base) :
    valueOf base digits < base ^ digits.length := by
  induction digits using List.reverseRecOn with
  | nil => simp [valueOf]
  | append_singleton front d ih =>
    have hd : d < base := h d (by simp)
    have hfront := ih fun e he => h e (by simp [he])
    rw [valueOf, List.foldl_append, List.length_append]
    change valueOf base front * base + d < base ^ (front.length + 1)
    calc valueOf base front * base + d < valueOf base front * base + base := by omega
      _ = (valueOf base front + 1) * base := (Nat.succ_mul _ _).symm
      _ ≤ base ^ front.length * base := Nat.mul_le_mul_right base hfront
      _ = base ^ (front.length + 1) := (Nat.pow_succ ..).symm

namespace Yaml

/-- A text holds an escape of eight hexadecimal digits with a number beyond all code points. -/
def HasEscapeBeyond (number : Nat) (t : Text) : Prop :=
  0x110000 ≤ number ∧ ∃ digits : Text, ("\\U" : Text) ++ digits <:+: t ∧ digits.length = 8 ∧
    (∀ c ∈ digits, c.hexDigit?.isSome = true) ∧
    Numeral.valueOf 16 (digits.filterMap CodePoint.hexDigit?) = number

/-- What may be wrong with a text when it is cut into tokens. -/
def IsTextFault (t : Text) : ReadError → Prop
  | .malformed => True
  | .noCodePoint number => HasEscapeBeyond number t
  | .tooManyDigits digits => Numeral.HasLongRun digits t
  | _ => False

variable {s t : Text} {c : Cursor} {α β : Type}

/-- A fault of an end of a text is one of the text. -/
theorem IsTextFault.of_suffix (h : s <:+ t) {e : ReadError} (he : IsTextFault s e) :
    IsTextFault t e := by
  cases e with
  | malformed => trivial
  | noCodePoint number =>
    obtain ⟨hn, digits, hinfix, hdigits⟩ := he
    exact ⟨hn, digits, hinfix.trans h.isInfix, hdigits⟩
  | tooManyDigits digits => exact he.of_infix h.isInfix
  | _ => exact he

/-- What is read from a text leaves an end of it, and faults are faults of the text. -/
def Reads (t : Text) (rest : α → Text) (x : Except ReadError α) : Prop :=
  EndsIn (IsTextFault t) (fun a => rest a <:+ t) x

namespace Reads

/-- A broken rule is a fault of every text. -/
theorem malformed {rest : α → Text} : Reads t rest (.error .malformed) := trivial

/-- What goes on from an end of a text goes on from the text. -/
theorem of_suffix {rest : α → Text} {x : Except ReadError α} (hx : Reads s rest x) (h : s <:+ t) :
    Reads t rest x := hx.imp (fun _ => IsTextFault.of_suffix h) fun _ hr => hr.trans h

/-- The next part is read from what the first one leaves. -/
theorem bind {rest : α → Text} {rest' : β → Text} {x : Except ReadError α}
    {f : α → Except ReadError β} (hx : Reads t rest x) (hf : ∀ a, Reads (rest a) rest' (f a)) :
    Reads t rest' (x >>= f) := EndsIn.bind hx fun a ha => (hf a).of_suffix ha

theorem map {rest : α → Text} {rest' : β → Text} {x : Except ReadError α} {f : α → β}
    (hx : Reads t rest x) (hf : ∀ a, rest' (f a) <:+ rest a) : Reads t rest' (x.map f) :=
  EndsIn.map hx fun a ha => (hf a).trans ha

end Reads

namespace Cursor

theorem next_rest (c : Cursor) : c.next.rest = c.rest.drop 1 := by
  rw [next]
  split
  · next h => simp [h]
  · next d rest h =>
    rw [h]
    split
    · rfl
    · split <;> rfl

theorem advance_rest (n : Nat) (c : Cursor) : (advance n c).rest = c.rest.drop n := by
  induction n generalizing c with
  | zero => rfl
  | succ n ih =>
    rw [advance, ih, next_rest, List.drop_drop, Nat.add_comm]

theorem advance_suffix (n : Nat) (c : Cursor) : (advance n c).rest <:+ c.rest := by
  rw [advance_rest]
  exact List.drop_suffix n c.rest

theorem next_suffix (c : Cursor) : c.next.rest <:+ c.rest := by
  rw [next_rest]
  exact List.drop_suffix 1 c.rest

theorem span_suffix (isMember : CodePoint → Bool) (c : Cursor) :
    (c.span isMember).2.rest <:+ c.rest := advance_suffix _ c

theorem skip_suffix (isMember : CodePoint → Bool) (c : Cursor) :
    (c.skip isMember).rest <:+ c.rest := span_suffix isMember c

theorem skipSpaces_suffix (c : Cursor) : c.skipSpaces.rest <:+ c.rest := skip_suffix _ c

theorem skipSpacesTo_suffix (column : Nat) (c : Cursor) :
    (c.skipSpacesTo column).rest <:+ c.rest := advance_suffix _ c

theorem skipComment_suffix (c : Cursor) : c.skipComment.rest <:+ c.rest := by
  rw [skipComment]
  split
  · exact skip_suffix _ c
  · exact List.suffix_refl _

theorem takeBreak?_suffix {d : CodePoint} {after : Cursor} (h : c.takeBreak? = some (d, after)) :
    after.rest <:+ c.rest := by
  rw [takeBreak?] at h
  split at h
  · split at h
    · cases h
      exact next_suffix c
    · split at h
      · cases h
        exact advance_suffix 2 c
      · cases h
        exact next_suffix c
  · cases h

theorem takeBreakText_suffix (c : Cursor) : c.takeBreakText.2.rest <:+ c.rest := by
  rw [takeBreakText]
  split
  · next h => exact takeBreak?_suffix h
  · exact List.suffix_refl _

theorem reads_finishLine (c : Cursor) : Reads c.rest Cursor.rest c.finishLine := by
  unfold finishLine
  dsimp only
  split
  · exact (takeBreakText_suffix _).trans ((skipComment_suffix _).trans (skipSpaces_suffix c))
  · exact .malformed

/-- What is left behind a piece, if one was taken. -/
def restOfPiece : Option (Text × Cursor) → Text
  | some (_, after) => after.rest
  | none => []

theorem reads_piecesWithin {take : Cursor → Except ReadError (Option (Text × Cursor))}
    (h : ∀ c, Reads c.rest restOfPiece (take c)) (fuel : Nat) (c : Cursor) :
    Reads c.rest (fun r => r.2.rest) (piecesWithin take fuel c) := by
  induction fuel generalizing c with
  | zero => exact List.suffix_refl _
  | succ fuel ih =>
    refine EndsIn.bind (h c) fun r hr => ?_
    rcases r with _ | ⟨piece, after⟩
    · exact List.suffix_refl _
    · exact ((ih after).of_suffix hr).bind fun r => List.suffix_refl _

theorem reads_pieces {take : Cursor → Except ReadError (Option (Text × Cursor))}
    (h : ∀ c, Reads c.rest restOfPiece (take c)) (c : Cursor) :
    Reads c.rest (fun r => r.2.rest) (c.pieces take) := reads_piecesWithin h _ c

end Cursor

open Cursor

/-! ### Scalars -/

theorem reads_blankLines (c : Cursor) : Reads c.rest (fun r => r.2.rest) (blankLines c) := by
  refine Reads.bind (reads_pieces (fun c => ?_) c) fun r => skip_suffix isBlank r.2
  split
  · exact .malformed
  · rcases h : (c.skip isBlank).takeBreak? with _ | ⟨d, after⟩
    · exact List.nil_suffix
    · exact (takeBreak?_suffix h).trans (skip_suffix isBlank c)

theorem reads_quotedGap (c : Cursor) : Reads c.rest (fun r => r.2.rest) (quotedGap c) := by
  unfold quotedGap
  have hspan := span_suffix isBlank c
  rcases h : (c.span isBlank).2.takeBreak? with _ | ⟨d, after⟩
  · simp only [h]
    split
    · exact .malformed
    · exact hspan
  · simp only [h]
    have hafter := (takeBreak?_suffix h).trans hspan
    exact ((reads_blankLines after).of_suffix hafter).bind fun r => List.suffix_refl _

theorem reads_singlePiece (c : Cursor) : Reads c.rest restOfPiece (singlePiece c) := by
  unfold singlePiece
  simp only
  split
  · split
    · exact advance_suffix 2 c
    · exact List.nil_suffix
  · split
    · exact (reads_quotedGap c).map fun r => List.suffix_refl _
    · exact span_suffix _ c

/-- A hexadecimal digit is less than sixteen. -/
theorem hexDigit?_lt {c : CodePoint} {d : Nat} (h : c.hexDigit? = some d) : d < 16 := by
  rw [CodePoint.hexDigit?] at h
  split at h
  · cases h
    omega
  · split at h
    · cases h
      omega
    · split at h
      · cases h
        omega
      · cases h

/-- The width of an escape that denotes a number beyond all code points. -/
theorem escapeWidth?_eq {letter : CodePoint} {width : Nat} (h : escapeWidth? letter = some width)
    (hw : ¬ width ≤ 4) : letter = ('U' : CodePoint) ∧ width = 8 := by
  rw [escapeWidth?] at h
  split at h
  · cases h
    omega
  · cases h
    omega
  · next hchar =>
    cases h
    exact ⟨CodePoint.eq_of_char hchar (by decide), rfl⟩
  · cases h

/-- Digits that are read have the width that was asked for, and denote the number. -/
theorem hexNumber_eq_ok {width number : Nat} {c : Cursor} (h : hexNumber width c = .ok number) :
    ((c.rest.take width).filterMap CodePoint.hexDigit?).length = width ∧
      Numeral.valueOf 16 ((c.rest.take width).filterMap CodePoint.hexDigit?) = number := by
  unfold hexNumber at h
  dsimp only at h
  split at h
  · next hwidth =>
    cases h
    exact ⟨hwidth, rfl⟩
  · cases h

/-- What a cursor sees is what follows it, unless it sees the end. -/
theorem rest_eq_cons {c : Cursor} {d : CodePoint} (h : c.peek = d) (hne : d ≠ endMark) :
    c.rest = d :: c.next.rest := by
  rw [next_rest]
  rw [peek] at h
  rcases hrest : c.rest with _ | ⟨e, rest⟩
  · rw [hrest] at h
    exact absurd h.symm hne
  · rw [hrest] at h
    rw [List.drop_succ_cons, List.drop_zero]
    exact congrArg (· :: rest) h

/-- Digits behind the letter of an escape that denote a number beyond all code points are eight,
and the letter is the one for eight. -/
theorem hasEscapeBeyond_of_hexNumber {c : Cursor} {width number : Nat}
    (h : c.peek = ('\\' : CodePoint)) (hwidth : escapeWidth? c.next.peek = some width)
    (hnumber : hexNumber width c.next.next = .ok number) (hbeyond : 0x110000 ≤ number) :
    HasEscapeBeyond number c.rest := by
  obtain ⟨hlength, hvalue⟩ := hexNumber_eq_ok hnumber
  have hdigits : ∀ d ∈ (c.next.next.rest.take width).filterMap CodePoint.hexDigit?, d < 16 := by
    intro d hd
    obtain ⟨e, -, he⟩ := List.mem_filterMap.mp hd
    exact hexDigit?_lt he
  have hlt := Numeral.valueOf_lt hdigits
  rw [hvalue, hlength] at hlt
  have hwide : ¬ width ≤ 4 := by
    intro hle
    have := Nat.pow_le_pow_right (n := 16) (by decide) hle
    omega
  obtain ⟨hletter, rfl⟩ := escapeWidth?_eq hwidth hwide
  have hrest : c.rest = ("\\U" : Text) ++ c.next.next.rest := by
    rw [rest_eq_cons h (by decide), rest_eq_cons hletter (by decide)]
    rfl
  have hinfix : ("\\U" : Text) ++ c.next.next.rest.take 8 <:+: c.rest := by
    rw [hrest]
    exact ((List.prefix_append_right_inj _).mpr (List.take_prefix 8 _)).isInfix
  have height : (c.next.next.rest.take 8).length = 8 := by
    have := List.length_filterMap_le CodePoint.hexDigit? (c.next.next.rest.take 8)
    have := List.length_take_le 8 c.next.next.rest
    omega
  have hall := List.filterMap_length_eq_length.mp (hlength.trans height.symm)
  exact ⟨hbeyond, _, hinfix, height, hall, hvalue⟩

theorem reads_escapePiece {c : Cursor} (h : c.peek = ('\\' : CodePoint)) :
    Reads c.rest (fun r => r.2.rest) (escapePiece c.next) := by
  have hnext := next_suffix c
  unfold escapePiece
  split
  · exact (next_suffix c.next).trans hnext
  · next width hshort hwidth =>
    refine EndsIn.bind (P := fun number => hexNumber width c.next.next = .ok number) ?_ ?_
    · rcases hnumber : hexNumber width c.next.next with e | number
      · unfold hexNumber at hnumber
        dsimp only at hnumber
        split at hnumber <;> cases hnumber
        trivial
      · rfl
    · intro number hnumber
      split
      · exact (advance_suffix width c.next.next).trans ((next_suffix c.next).trans hnext)
      · next hnone =>
        have hbeyond : 0x110000 ≤ number := by
          rw [CodePoint.ofNat?] at hnone
          split at hnone
          · cases hnone
          · omega
        exact hasEscapeBeyond_of_hexNumber h hwidth hnumber hbeyond
  · rcases hbreak : c.next.takeBreak? with _ | ⟨d, after⟩
    · exact .malformed
    · exact (reads_blankLines after).of_suffix ((takeBreak?_suffix hbreak).trans hnext)

theorem reads_doublePiece (c : Cursor) : Reads c.rest restOfPiece (doublePiece c) := by
  unfold doublePiece
  dsimp only
  split
  · exact List.nil_suffix
  · split
    · next hback =>
      exact (reads_escapePiece (of_decide_eq_true hback)).map fun r => List.suffix_refl _
    · split
      · exact (reads_quotedGap c).map fun r => List.suffix_refl _
      · exact span_suffix _ c

theorem reads_quotedScalar (double : Bool) (c : Cursor) :
    Reads c.rest (fun r => r.2.rest) (quotedScalar double c) := by
  have hpieces : Reads c.next.rest (fun r => r.2.rest)
      (c.next.pieces (if double then doublePiece else singlePiece)) := by
    cases double
    · exact reads_pieces reads_singlePiece _
    · exact reads_pieces reads_doublePiece _
  exact (hpieces.of_suffix (next_suffix c)).bind fun r => next_suffix r.2

/-! ### Plain scalars and blocks -/

theorem plainBreaks_suffix (fuel : Nat) (c : Cursor) : (plainBreaks fuel c).2.rest <:+ c.rest := by
  induction fuel generalizing c with
  | zero => exact List.suffix_refl _
  | succ fuel ih =>
    rw [plainBreaks]
    split
    · exact List.suffix_refl _
    · split
      · exact skipSpaces_suffix c
      · next d after h =>
        exact (ih after).trans ((takeBreak?_suffix h).trans (skipSpaces_suffix c))

theorem plainGap_suffix (c : Cursor) : (plainGap c).after.rest <:+ c.rest := by
  unfold plainGap
  dsimp only
  have hspan := span_suffix (fun d => d.value = 0x20) c
  split
  · exact hspan
  · next h => exact (plainBreaks_suffix _ _).trans ((takeBreak?_suffix h).trans hspan)

theorem plainWithin_suffix (inFlow : Bool) (indent : Int) (fuel : Nat) (c : Cursor) :
    (plainWithin inFlow indent fuel c).after.rest <:+ c.rest := by
  induction fuel generalizing c with
  | zero => exact List.suffix_refl _
  | succ fuel ih =>
    rw [plainWithin]
    have hgap : (plainGap (c.advance (plainWord inFlow c.rest).length)).after.rest <:+ c.rest :=
      (plainGap_suffix _).trans (advance_suffix _ c)
    dsimp only
    split
    · exact hgap
    · exact (ih _).trans hgap

theorem plainScalar_suffix (inFlow : Bool) (indent : Int) (c : Cursor) :
    (plainScalar inFlow indent c).after.rest <:+ c.rest := plainWithin_suffix ..

theorem takeChomping_suffix (c : Cursor) : (takeChomping c).2.rest <:+ c.rest := by
  rw [takeChomping]
  split
  · exact next_suffix c
  · exact List.suffix_refl _

theorem reads_takeIncrement (c : Cursor) : Reads c.rest (fun r => r.2.rest) (takeIncrement c) := by
  rw [takeIncrement]
  split
  · split
    · exact .malformed
    · exact next_suffix c
  · exact List.suffix_refl _

theorem reads_blockHeader (c : Cursor) : Reads c.rest (fun r => r.2.2.rest) (blockHeader c) := by
  unfold blockHeader
  dsimp only
  refine ((reads_takeIncrement _).of_suffix (takeChomping_suffix c)).bind fun r => ?_
  -- a second sign is looked for only behind a digit
  split
  · split
    · exact takeChomping_suffix r.2
    · exact .malformed
  · split
    · exact List.suffix_refl _
    · exact .malformed

theorem blockLead_suffix (fuel : Nat) (c : Cursor) : (blockLead fuel c).2.2.rest <:+ c.rest := by
  induction fuel generalizing c with
  | zero => exact List.suffix_refl _
  | succ fuel ih =>
    rw [blockLead]
    dsimp only
    split
    · exact skipSpaces_suffix c
    · next h => exact (ih _).trans ((takeBreak?_suffix h).trans (skipSpaces_suffix c))

theorem blockBreaks_suffix (indent fuel : Nat) (c : Cursor) :
    (blockBreaks indent fuel c).2.rest <:+ c.rest := by
  induction fuel generalizing c with
  | zero => exact List.suffix_refl _
  | succ fuel ih =>
    rw [blockBreaks]
    dsimp only
    split
    · exact skipSpacesTo_suffix indent c
    · next h => exact (ih _).trans ((takeBreak?_suffix h).trans (skipSpacesTo_suffix indent c))

theorem blockLines_suffix (folded : Bool) (indent fuel : Nat) (breaks : Text) (c : Cursor) :
    (blockLines folded indent fuel breaks c).after.rest <:+ c.rest := by
  induction fuel generalizing breaks c with
  | zero => exact List.suffix_refl _
  | succ fuel ih =>
    rw [blockLines]
    dsimp only
    split
    · have hbreaks : ∀ c' : Cursor, (blockBreaks indent (c'.takeBreakText.2.rest.length + 1)
          c'.takeBreakText.2).2.rest <:+ c'.rest := fun c' =>
        (blockBreaks_suffix ..).trans (takeBreakText_suffix c')
      have hline := (hbreaks _).trans (span_suffix (fun d => !endsLine d) c)
      split
      · exact (ih _ _).trans hline
      · exact hline
    · exact List.suffix_refl _

theorem reads_blockScalar (folded : Bool) (outer : Int) (c : Cursor) :
    Reads c.rest (fun r => r.2.rest) (blockScalar folded outer c) := by
  unfold blockScalar
  refine ((reads_blockHeader c.next).of_suffix (next_suffix c)).bind fun r => ?_
  refine (reads_finishLine r.2.2).bind fun after => ?_
  refine (blockLines_suffix ..).trans ?_
  split
  · exact blockBreaks_suffix ..
  · exact blockLead_suffix ..

end Yaml

end ZodSchemas
