import Mathlib.Data.List.InsertIdx
import ZodSchemas.Proofs.Yaml.Cursors
import ZodSchemas.Yaml.Token

/-!
# Faults among tokens

Cutting goes on from one token to the next, and each leaves an end of the text.
A fault stands at the end of the tokens, so it is the first fault of the text;
no token in front of it is one.
-/

namespace ZodSchemas.Yaml

open Cursor

variable {t : Text}

theorem reads_hexNumber (width : Nat) (c : Cursor) {rest : Nat → Text} (h : ∀ n, rest n <:+ t) :
    Reads t rest (hexNumber width c) := by
  unfold hexNumber
  dsimp only
  split
  · exact h _
  · exact .malformed

/-! ### Names, tags and directives -/

theorem reads_anchorName (c : Cursor) : Reads c.rest (fun r => r.2.rest) (anchorName c) := by
  unfold anchorName
  dsimp only
  split
  · exact .malformed
  · exact span_suffix isNameChar c

theorem reads_escapedOctets (fuel : Nat) (c : Cursor) :
    Reads c.rest (fun r => r.2.rest) (escapedOctets fuel c) := by
  induction fuel generalizing c with
  | zero => exact List.suffix_refl _
  | succ fuel ih =>
    rw [escapedOctets]
    split
    · refine (reads_hexNumber 2 c.next fun _ => List.suffix_refl c.rest).bind fun octet => ?_
      exact ((ih (c.advance 3)).of_suffix (advance_suffix 3 c)).bind fun r => List.suffix_refl _
    · exact List.suffix_refl _

theorem reads_tagPiece (c : Cursor) : Reads c.rest restOfPiece (tagPiece c) := by
  unfold tagPiece
  dsimp only
  split
  · refine (reads_escapedOctets _ c).bind fun r => ?_
    split
    · exact List.suffix_refl _
    · exact .malformed
  · split
    · exact span_suffix _ c
    · exact List.nil_suffix

theorem reads_tagText (c : Cursor) : Reads c.rest (fun r => r.2.rest) (tagText c) := by
  unfold tagText
  refine EndsIn.bind (reads_tagPiece c) fun r hr => ?_
  cases r with
  | none => exact Reads.malformed
  | some piece => exact reads_pieces reads_tagPiece c

theorem reads_tagHandle (c : Cursor) : Reads c.rest (fun r => r.2.rest) (tagHandle c) := by
  unfold tagHandle
  dsimp only
  split
  · exact .malformed
  · split
    · exact next_suffix c
    · split
      · exact (next_suffix _).trans ((span_suffix isNameChar c.next).trans (next_suffix c))
      · exact .malformed

theorem reads_writtenTag (c : Cursor) : Reads c.rest (fun r => r.2.rest) (writtenTag c) := by
  have hend : ∀ r : WrittenTag × Cursor, Reads r.2.rest (fun r => r.2.rest)
      (if endsWord r.2.peek then Except.ok (r.1, r.2) else Except.error ReadError.malformed) := by
    intro r
    split
    · exact List.suffix_refl _
    · exact .malformed
  unfold writtenTag
  split
  · refine ((reads_tagText (c.advance 2)).of_suffix (advance_suffix 2 c)).bind fun r => ?_
    dsimp only
    split
    · exact (hend (⟨none, r.1⟩, r.2.next)).of_suffix (next_suffix r.2)
    · exact .malformed
  · split
    · exact (hend (⟨none, "!"⟩, c.next)).of_suffix (next_suffix c)
    · dsimp only
      split
      · exact (reads_tagHandle c).bind fun r =>
          (reads_tagText r.2).bind fun r' => hend (⟨some r.1, r'.1⟩, r'.2)
      · exact ((reads_tagText c.next).of_suffix (next_suffix c)).bind fun r' =>
          hend (⟨some "!", r'.1⟩, r'.2)

theorem reads_versionNumber (c : Cursor) : Reads c.rest (fun r => r.2.rest) (versionNumber c) := by
  unfold versionNumber
  dsimp only
  split
  · next hlong =>
    exact ⟨hlong, _, (List.takeWhile_prefix _).isInfix, rfl, List.all_takeWhile⟩
  · split
    · exact span_suffix CodePoint.isDigit c
    · exact .malformed

theorem reads_versionDirective (c : Cursor) :
    Reads c.rest (fun r => r.2.rest) (versionDirective c) := by
  unfold versionDirective
  refine ((reads_versionNumber c.skipSpaces).of_suffix (skipSpaces_suffix c)).bind fun r => ?_
  dsimp only
  split
  · refine ((reads_versionNumber r.2.next).of_suffix (next_suffix r.2)).bind fun r' => ?_
    split
    · exact List.suffix_refl _
    · exact .malformed
  · exact .malformed

theorem reads_handleDirective (c : Cursor) :
    Reads c.rest (fun r => r.2.rest) (handleDirective c) := by
  unfold handleDirective
  refine ((reads_tagHandle c.skipSpaces).of_suffix (skipSpaces_suffix c)).bind fun r => ?_
  dsimp only
  split
  · refine ((reads_tagText r.2.skipSpaces).of_suffix (skipSpaces_suffix r.2)).bind fun r' => ?_
    split
    · exact List.suffix_refl _
    · exact .malformed
  · exact .malformed

theorem reads_directiveLine (c : Cursor) :
    Reads c.rest (fun r => r.2.rest) (directiveLine c) := by
  have hline : ∀ r : Directive × Cursor, Reads r.2.rest (fun r => r.2.rest) (do
      let c ← r.2.finishLine
      Except.ok (r.1, c)) := fun r => (reads_finishLine r.2).bind fun _ => List.suffix_refl _
  unfold directiveLine
  dsimp only
  have hname := (span_suffix isNameChar c.next).trans (next_suffix c)
  split
  · exact .malformed
  · refine Reads.of_suffix ?_ hname
    split
    · exact (reads_versionDirective _).bind hline
    · split
      · exact (reads_handleDirective _).bind hline
      · have hother (after : Cursor) (h : after.rest <:+ (c.next.span isNameChar).2.rest) :
            Reads (c.next.span isNameChar).2.rest (fun r => r.2.rest)
              (Except.ok (Directive.other, after)) := h
        exact (hother _ (skip_suffix _ _)).bind hline

/-! ### Cutting -/

/-- A token that is no fault. -/
def Token.IsSound : Token → Prop
  | .fault _ => False
  | _ => True

namespace Lexer

/-- An end of a text is left, and no token so far is a fault. -/
structure IsWithin (t : Text) (s : Lexer) : Prop where
  /-- An end of the text is left. -/
  suffix : s.cursor.rest <:+ t
  /-- No token is a fault. -/
  sound : ∀ token ∈ s.tokens, token.IsSound

/-- The next tokens are cut off, or there is a fault of the text. -/
def Cuts (t : Text) (x : Except ReadError Lexer) : Prop := EndsIn (IsTextFault t) (IsWithin t) x

variable {s : Lexer} {c : Cursor} {token : Token}

namespace IsWithin

theorem put (h : s.IsWithin t) (ht : token.IsSound) : (s.put token).IsWithin t := by
  refine ⟨h.suffix, fun other hother => ?_⟩
  rcases List.mem_cons.mp hother with rfl | hother
  · exact ht
  · exact h.sound other hother

theorem putAt (h : s.IsWithin t) (ht : token.IsSound) (number : Nat) :
    (s.putAt number token).IsWithin t := by
  refine ⟨h.suffix, fun other hother => ?_⟩
  rcases List.eq_or_mem_of_mem_insertIdx hother with rfl | hother
  · exact ht
  · exact h.sound other hother

theorem goTo (h : s.IsWithin t) (hc : c.rest <:+ t) : (s.goTo c).IsWithin t := ⟨hc, h.sound⟩

theorem allowKey (h : s.IsWithin t) (allowed : Bool) : (s.allowKey allowed).IsWithin t :=
  ⟨h.suffix, h.sound⟩

theorem take (h : s.IsWithin t) (ht : token.IsSound) (width : Nat) :
    (s.take width token).IsWithin t :=
  (h.put ht).goTo ((advance_suffix width s.cursor).trans h.suffix)

theorem closeBlocks (h : s.IsWithin t) (column : Int) (outer : List Int) :
    (Lexer.closeBlocks column outer s).IsWithin t := by
  induction outer generalizing s with
  | nil => exact h
  | cons next others ih =>
    rw [Lexer.closeBlocks]
    split
    · exact ih (IsWithin.put ⟨h.suffix, h.sound⟩ trivial)
    · exact h

theorem unwind (h : s.IsWithin t) (column : Int) : (s.unwind column).IsWithin t := by
  rw [Lexer.unwind]
  split
  · exact h.closeBlocks column s.outer
  · exact h

theorem openBlock (h : s.IsWithin t) (ht : token.IsSound) (column number : Nat) :
    (s.openBlock column number token).IsWithin t := by
  rw [Lexer.openBlock]
  split
  · refine IsWithin.putAt ?_ ht number
    exact ⟨h.suffix, h.sound⟩
  · exact h

theorem dropKeyStart (h : s.IsWithin t) : Cuts t s.dropKeyStart := by
  rw [Lexer.dropKeyStart]
  split
  · split
    · trivial
    · exact ⟨h.suffix, h.sound⟩
  · exact h

theorem dropFarKeyStarts (h : s.IsWithin t) : Cuts t s.dropFarKeyStarts := by
  rw [Lexer.dropFarKeyStarts]
  split
  · trivial
  · exact ⟨h.suffix, h.sound⟩

theorem saveKeyStart (h : s.IsWithin t) : Cuts t s.saveKeyStart := by
  rw [Lexer.saveKeyStart]
  split
  · exact EndsIn.bind h.dropKeyStart fun s' h' => ⟨h'.suffix, h'.sound⟩
  · exact h

theorem skipGap (h : s.IsWithin t) (fuel : Nat) : (Lexer.skipGap fuel s).IsWithin t := by
  induction fuel generalizing s with
  | zero => exact h
  | succ fuel ih =>
    rw [Lexer.skipGap]
    have hgap := ((skipComment_suffix _).trans (skipSpaces_suffix s.cursor)).trans h.suffix
    split
    · exact h.goTo hgap
    · next hbreak => exact ih ((h.goTo ((takeBreak?_suffix hbreak).trans hgap)).allowKey _)

theorem toNext (h : s.IsWithin t) : s.toNext.IsWithin t := by
  unfold Lexer.toNext
  dsimp only
  refine IsWithin.skipGap ?_ _
  split
  · exact h.goTo ((next_suffix s.cursor).trans h.suffix)
  · exact h

theorem endBlocks (h : s.IsWithin t) : Cuts t s.endBlocks :=
  EndsIn.bind (h.unwind (-1)).dropKeyStart fun _ h' => h'.allowKey false

theorem openBracket (h : s.IsWithin t) (ht : token.IsSound) : Cuts t (s.openBracket token) :=
  EndsIn.bind h.saveKeyStart fun s' h' =>
    have hdeeper : IsWithin t { s' with flow := s'.flow + 1 } := ⟨h'.suffix, h'.sound⟩
    (hdeeper.allowKey true).take ht 1

theorem closeBracket (h : s.IsWithin t) (ht : token.IsSound) : Cuts t (s.closeBracket token) := by
  refine EndsIn.bind h.dropKeyStart fun s' h' => ?_
  split
  · trivial
  · next flow _ =>
    have hout : IsWithin t { s' with flow := flow } := ⟨h'.suffix, h'.sound⟩
    exact (hout.allowKey false).take ht 1

theorem takeComma (h : s.IsWithin t) : Cuts t s.takeComma :=
  EndsIn.bind (h.allowKey true).dropKeyStart fun _ h' => h'.take (by trivial) 1

theorem takeIndicator {block : Token} (h : s.IsWithin t) (hb : block.IsSound)
    (ht : token.IsSound) (allowed : Bool) : Cuts t (s.takeIndicator block token allowed) := by
  rw [Lexer.takeIndicator]
  split
  · trivial
  · exact EndsIn.bind ((h.openBlock hb _ _).allowKey allowed).dropKeyStart fun _ h' => h'.take ht 1

theorem takeColon (h : s.IsWithin t) : Cuts t s.takeColon := by
  rw [Lexer.takeColon]
  split
  · have hforget : s.forgetKeyStart.IsWithin t := ⟨h.suffix, h.sound⟩
    have hkey (number : Nat) : (s.forgetKeyStart.putAt number .key).IsWithin t :=
      hforget.putAt (by trivial) number
    exact (((hkey _).openBlock (by trivial) _ _).allowKey false).take (by trivial) 1
  · exact h.takeIndicator (by trivial) (by trivial) _

/-- A token is read that is no fault. -/
theorem takeKeyPart {part : Cursor → Except ReadError (Token × Cursor)} (h : s.IsWithin t)
    (hpart : ∀ c,
      EndsIn (IsTextFault c.rest) (fun r => r.1.IsSound ∧ r.2.rest <:+ c.rest) (part c)) :
    Cuts t (s.takeKeyPart part) := by
  refine EndsIn.bind h.saveKeyStart fun s' h' => ?_
  have hread := (hpart s'.cursor).imp (fun _ => IsTextFault.of_suffix h'.suffix) fun _ hr => hr
  exact EndsIn.bind hread fun r hr =>
    ((h'.allowKey false).put hr.1).goTo (hr.2.trans h'.suffix)

theorem takePlain (h : s.IsWithin t) : Cuts t s.takePlain :=
  EndsIn.bind h.saveKeyStart fun _ h' =>
    ((h'.allowKey _).put (by trivial)).goTo ((plainScalar_suffix ..).trans h'.suffix)

theorem takeBlock (h : s.IsWithin t) (folded : Bool) : Cuts t (s.takeBlock folded) :=
  EndsIn.bind (h.allowKey true).dropKeyStart fun _ h' =>
    EndsIn.bind ((reads_blockScalar folded _ _).of_suffix h'.suffix) fun _ hr =>
      (h'.put (by trivial)).goTo hr

theorem takeToken (h : s.IsWithin t) : Cuts t s.takeToken := by
  have hname : ∀ (token : Text → Token), (∀ name, (token name).IsSound) → ∀ c : Cursor,
      EndsIn (IsTextFault c.rest) (fun r => r.1.IsSound ∧ r.2.rest <:+ c.rest)
        (named token c) := fun token ht c =>
    EndsIn.bind ((reads_anchorName c.next).of_suffix (next_suffix c)) fun r hr => ⟨ht r.1, hr⟩
  unfold Lexer.takeToken
  dsimp only
  split
  · exact h.openBracket trivial
  · exact h.openBracket trivial
  · exact h.closeBracket trivial
  · exact h.closeBracket trivial
  · exact h.takeComma
  · exact h.takeKeyPart (hname .alias fun _ => trivial)
  · exact h.takeKeyPart (hname .anchor fun _ => trivial)
  · exact h.takeKeyPart fun c => EndsIn.map (reads_writtenTag c) fun r hr => ⟨trivial, hr⟩
  · exact h.takeKeyPart fun c => EndsIn.map (reads_quotedScalar false c) fun r hr => ⟨trivial, hr⟩
  · exact h.takeKeyPart fun c => EndsIn.map (reads_quotedScalar true c) fun r hr => ⟨trivial, hr⟩
  · -- indicators, blocks and plain scalars
    split
    · exact h.takeIndicator (by trivial) (by trivial) true
    split
    · exact h.takeIndicator (by trivial) (by trivial) _
    split
    · exact h.takeColon
    split
    · exact h.takeBlock false
    split
    · exact h.takeBlock true
    split
    · exact h.takePlain
    · trivial

/-- What one step preserves. -/
theorem step (h : s.IsWithin t) : EndsIn (IsTextFault t) (fun r => r.2.IsWithin t) s.step := by
  refine EndsIn.bind h.toNext.dropFarKeyStarts fun s' h' => ?_
  have hunwound := h'.unwind s'.cursor.column
  dsimp only
  split
  · exact EndsIn.bind (hunwound.unwind (-1)).dropKeyStart fun s'' h'' => h''
  split
  · refine EndsIn.bind hunwound.endBlocks fun s'' h'' => ?_
    exact EndsIn.bind ((reads_directiveLine _).of_suffix hunwound.suffix) fun r hr =>
      (h''.put (by trivial)).goTo hr
  split
  · exact EndsIn.bind hunwound.endBlocks fun s'' h'' => h''.take (by trivial) 3
  split
  · exact EndsIn.bind hunwound.endBlocks fun s'' h'' => h''.take (by trivial) 3
  · exact EndsIn.bind hunwound.takeToken fun s'' h'' => h''

end IsWithin

/-- A fault among the tokens of a whole run is one of the text. -/
theorem isTextFault_of_mem_run {fuel : Nat} {e : ReadError} (h : s.IsWithin t)
    (he : .fault e ∈ run fuel s) : IsTextFault t e := by
  have hsound : ∀ {s : Lexer}, s.IsWithin t → Token.fault e ∉ s.tokens.reverse :=
    fun h hm => h.sound _ (List.mem_reverse.mp hm)
  induction fuel generalizing s with
  | zero => exact absurd he (hsound h)
  | succ fuel ih =>
    have hstep := h.step
    unfold run at he
    rcases hs : s.step with e' | ⟨_ | _, s'⟩ <;> rw [hs] at he hstep
    · rcases List.mem_append.mp he with hsettled | hfault
      · have hmem : Token.fault e ∈ s.tokens.reverse := by
          simp only [settled] at hsettled
          split at hsettled
          · exact List.mem_of_mem_take hsettled
          · exact hsettled
        exact absurd hmem (hsound h)
      · cases List.mem_singleton.mp hfault
        exact hstep
    · exact absurd he (hsound hstep)
    · exact ih hstep he

end Lexer

/-- A fault among the tokens of a text is one of the text. -/
theorem Token.isTextFault_of_mem {e : ReadError} (h : .fault e ∈ Token.ofText t) :
    IsTextFault t e := by
  rw [Token.ofText] at h
  split at h
  · exact Lexer.isTextFault_of_mem_run ⟨List.suffix_refl t, by simp [Lexer.ofText]⟩ h
  · cases List.mem_singleton.mp h
    trivial

end ZodSchemas.Yaml
