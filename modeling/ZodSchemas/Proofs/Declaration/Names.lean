import ZodSchemas.Proofs.Declaration.Nesting
import ZodSchemas.Proofs.Declaration.Recovery

/-!
# Names of properties tell the keys

A key that is an identifier stands for itself, and every other key is written as
a string in visible ASCII that is read as the key, except that JSON has no way to
tell the two surrogates of a pair from the code point that they are the halves
of. So the written name of a property is one line, keys that are read apart are
written apart, and the lines of an object may be moved to the right as often as
objects are nested: every name stays whole, at the start of a line.
-/

namespace ZodSchemas

namespace Json

/-- What is joined is a high surrogate and a low one. -/
theorem isHighSurrogate_of_ofHalves? {high low c : CodePoint} (h : ofHalves? high low = some c) :
    high.isHighSurrogate = true ∧ low.isLowSurrogate = true := by
  unfold ofHalves? at h
  split at h
  · next hcond => exact Bool.and_eq_true_iff.mp hcond
  · simp at h

/-- A high surrogate and a low one are joined. -/
theorem ofHalves?_ne_none {high low : CodePoint}
    (h : high.isHighSurrogate = true ∧ low.isLowSurrogate = true) : ofHalves? high low ≠ none := by
  obtain ⟨hh, hl⟩ := h
  simp only [CodePoint.isHighSurrogate, CodePoint.isLowSurrogate, Bool.and_eq_true,
    decide_eq_true_eq] at hh hl
  have hlt : 0x10000 + (high.value - 0xD800) * 0x400 + (low.value - 0xDC00) < 0x110000 := by omega
  simp [ofHalves?, CodePoint.isHighSurrogate, CodePoint.isLowSurrogate, hh, hl, CodePoint.ofNat?,
    hlt]

/-- Joining the units of a text is joining the text. -/
theorem joinHalves_flatMap_units (t : Text) : joinHalves (t.flatMap units) = joinHalves t := by
  -- What is no first half of a pair stays alone, in one unit or in two.
  have alone : ∀ (c : CodePoint) (rest : Text),
      (∀ d ∈ rest.head?, ¬(c.isHighSurrogate ∧ d.isLowSurrogate)) →
      joinHalves ((c :: rest).flatMap units) = c :: joinHalves (rest.flatMap units) := by
    intro c rest h
    rw [List.flatMap_cons, units]
    split
    · exact joinHalves_cons fun d hd hcd => h d (isLowSurrogate_head_units hd hcd.2) hcd
    · next hv =>
      simp only [List.cons_append, List.nil_append, joinHalves, ofHalves?_halves (Nat.not_lt.mp hv)]
  fun_induction joinHalves t with
  | case1 => rfl
  | case2 c => rw [alone c [] (by simp)]; rfl
  | case3 high low rest c hc ih =>
    obtain ⟨hh, hl⟩ := isHighSurrogate_of_ofHalves? hc
    have hhigh : units high = [high] := if_pos (by
      simp only [CodePoint.isHighSurrogate, Bool.and_eq_true, decide_eq_true_eq] at hh; omega)
    have hlow : units low = [low] := if_pos (by
      simp only [CodePoint.isLowSurrogate, Bool.and_eq_true, decide_eq_true_eq] at hl; omega)
    simp only [List.flatMap_cons, hhigh, hlow, List.cons_append, List.nil_append, joinHalves, hc,
      ih]
  | case4 high low rest hn ih =>
    rw [alone high (low :: rest) ?_, ih]
    rintro d hd hcd
    obtain rfl := Option.some.inj hd
    exact absurd hn (ofHalves?_ne_none hcd)

/-- A joined text has nothing to be joined. -/
theorem joinHalves_of_isJoined {t : Text} (h : t.IsJoined) : joinHalves t = t := by
  rw [← joinHalves_flatMap_units, joinHalves_units h]

/-- A written string is a document that denotes the text, with surrogates joined. -/
theorem read_writeText (t : Text) : read (writeText t) = .ok (.text (joinHalves t)) := by
  have hread : readText (writeText t) = .ok (joinHalves t, []) := by
    have h := readText_writeText_append t []
    rwa [List.append_nil, joinHalves_flatMap_units] at h
  obtain ⟨rest, hquote⟩ : ∃ rest, writeText t = ('\"' : CodePoint) :: rest := by
    have h := writeText_append t []
    rw [List.append_nil] at h
    exact ⟨_, h⟩
  rw [hquote] at hread ⊢
  have hwhole : readDocument.readWhole (('\"' : CodePoint) :: rest) =
      .ok (.text (joinHalves t)) := by
    have hblanks : skipBlanks (('\"' : CodePoint) :: rest) = ('\"' : CodePoint) :: rest := rfl
    rw [readDocument.readWhole, hblanks, readValue]
    simp only [if_true, hread]
    rfl
  rw [read, readDocument, if_neg (by decide), hwhole]
  rfl

end Json

namespace PropertyName

/-- ASCII letters, digits, dollar signs and underscores, at least one, and no digit in front. -/
structure IsPlain (t : Text) : Prop where
  /-- There is something. -/
  nonempty : t ≠ []
  /-- There is nothing else. -/
  parts : ∀ c ∈ t, c.isLetter = true ∨ c.isDigit = true ∨ c = ('$' : CodePoint) ∨
    c = ('_' : CodePoint)
  /-- There is no digit in front. -/
  start : ∀ c ∈ t.head?, c.isDigit = false

/-- A plain key behind which the line ends. -/
def EndsLine (t : Text) : Prop := ∃ name, IsPlain name ∧ t = name ++ "\n"

/-- Identifiers are plain. -/
theorem isIdentifier_iff {t : Text} : isIdentifier t = true ↔ IsPlain t := by
  have digit : ∀ c : CodePoint, c.isDigit = true → isStart c = false := by
    intro c hc
    simp only [CodePoint.isDigit, Bool.and_eq_true, decide_eq_true_eq] at hc
    have hdollar : c ≠ ('$' : CodePoint) := by rintro rfl; simp at hc
    have hline : c ≠ ('_' : CodePoint) := by rintro rfl; simp at hc
    simp only [isStart, CodePoint.isLetter, hdollar, hline, decide_false, Bool.or_false,
      Bool.or_eq_false_iff, Bool.and_eq_false_iff, decide_eq_false_iff_not]
    omega
  have part : ∀ c : CodePoint, isPart c = true ↔ c.isLetter = true ∨ c.isDigit = true ∨
      c = ('$' : CodePoint) ∨ c = ('_' : CodePoint) := by
    intro c
    simp only [isPart, isStart, Bool.or_eq_true, decide_eq_true_eq]
    tauto
  cases t with
  | nil => exact ⟨by simp [isIdentifier], fun h => absurd rfl h.nonempty⟩
  | cons c rest =>
    rw [isIdentifier, Bool.and_eq_true, List.all_eq_true]
    constructor
    · rintro ⟨hs, hr⟩
      refine ⟨by simp, List.forall_mem_cons.mpr ⟨(part c).mp ?_, fun d hd => (part d).mp (hr d hd)⟩,
        ?_⟩
      · rw [isPart, hs, Bool.true_or]
      · rintro d hd
        obtain rfl := Option.some.inj hd
        exact Bool.eq_false_iff.mpr fun hdigit => by simp [digit c hdigit] at hs
    · intro h
      have hc := (part c).mpr (h.parts c (by simp))
      have hdigit : c.isDigit = false := h.start c rfl
      refine ⟨by simpa [isPart, hdigit] using hc, fun d hd => ?_⟩
      exact (part d).mpr (h.parts d (List.mem_cons_of_mem _ hd))

/-- What stands bare is plain, apart from the end of a line. -/
theorem isBare_iff {t : Text} (h : ¬ EndsLine t) : isBare t = true ↔ IsPlain t := by
  rw [isBare, Bool.or_eq_true, isIdentifier_iff]
  refine or_iff_left fun hline => h ?_
  obtain ⟨hlast, hname⟩ := Bool.and_eq_true_iff.mp hline
  exact ⟨t.dropLast, isIdentifier_iff.mp hname,
    (List.dropLast_append_getLast? _ (of_decide_eq_true hlast)).symm⟩

/-- A plain key is visible. -/
theorem IsPlain.isVisible {t : Text} (h : IsPlain t) : t.IsVisible := by
  intro c hc
  rcases h.parts c hc with hl | hd | rfl | rfl
  · simp only [CodePoint.isLetter, Bool.or_eq_true, Bool.and_eq_true, decide_eq_true_eq] at hl
    omega
  · simp only [CodePoint.isDigit, Bool.and_eq_true, decide_eq_true_eq] at hd
    omega
  · decide
  · decide

/-- A written name is visible, so it is one line. -/
theorem isVisible_writeText {t : Text} (h : ¬ EndsLine t) : (writeText t).IsVisible := by
  unfold writeText
  split
  · next hb => exact ((isBare_iff h).mp hb).isVisible
  · exact Json.isVisible_writeText t

/-- A written name starts with a quote exactly when it does not stand bare. -/
theorem head?_writeText {t : Text} (h : ¬ EndsLine t) :
    (writeText t).head? = some ('\"' : CodePoint) ↔ ¬ IsPlain t := by
  unfold writeText
  split
  · next hb =>
    have hplain := (isBare_iff h).mp hb
    have hquote := (Reader.isPart_of_isIdentifier (isIdentifier_iff.mpr hplain)).2 []
    rw [List.append_nil] at hquote
    exact iff_of_false hquote fun hn => hn hplain
  · next hb =>
    have hhead : (Json.writeText t).head? = some ('\"' : CodePoint) := by
      rw [← List.append_nil (Json.writeText t), Json.writeText_append]
      rfl
    exact iff_of_true hhead fun hplain => hb ((isBare_iff h).mpr hplain)

/-- What is written alike is read alike. -/
theorem joinHalves_eq_of_writeText {s t : Text} (hs : ¬ EndsLine s) (ht : ¬ EndsLine t)
    (h : writeText s = writeText t) : Json.joinHalves s = Json.joinHalves t := by
  have hplain : IsPlain s ↔ IsPlain t := by
    rw [← not_iff_not, ← head?_writeText hs, ← head?_writeText ht, h]
  by_cases hp : IsPlain s
  · rw [writeText, writeText, if_pos ((isBare_iff hs).mpr hp),
      if_pos ((isBare_iff ht).mpr (hplain.mp hp))] at h
    rw [h]
  · rw [writeText, writeText, if_neg (mt (isBare_iff hs).mp hp),
      if_neg (mt (isBare_iff ht).mp (mt hplain.mpr hp))] at h
    have hread := Json.read_writeText s
    rw [h, Json.read_writeText t] at hread
    simpa using hread.symm

end PropertyName

namespace Lines

/-- A part stands at the start of a line, behind blanks. -/
def StartsLine (part t : Text) : Prop :=
  ∃ (front : Text) (n : Nat) (back : Text),
    t = front ++ lineFeed :: (List.replicate n (' ' : CodePoint) ++ (part ++ back))

/-- The start of a line stays one with more text around it. -/
theorem StartsLine.surround {part t : Text} (h : StartsLine part t) (before after : Text) :
    StartsLine part (before ++ t ++ after) := by
  obtain ⟨front, n, back, rfl⟩ := h
  exact ⟨before ++ front, n, back ++ after, by simp only [List.append_assoc, List.cons_append]⟩

/-- The start of a line stays one when lines are moved to the right. -/
theorem StartsLine.hang {part t : Text} (h : StartsLine part t) (hp : lineFeed ∉ part)
    (level : Int) : StartsLine part (hang level t) := by
  obtain ⟨front, n, back, rfl⟩ := h
  have hblanks : Lines.hang level (List.replicate n (' ' : CodePoint)) = List.replicate n _ :=
    hang_eq_self fun h => absurd (List.eq_of_mem_replicate h) (by decide)
  refine ⟨Lines.hang level front, 2 * level.toNat + n, Lines.hang level back, ?_⟩
  rw [hang_append, hang_cons, hang_append, hblanks, hang_append, hang_eq_self hp,
    List.replicate_add, List.append_assoc]
  rfl

/-- The start of a line is carried outwards. -/
theorem isCarried_startsLine {part : Text} (hp : lineFeed ∉ part) :
    IsCarried (StartsLine part) where
  surround h front back := h.surround front back
  indent {t} h := by
    have hs := (h.hang hp 1).surround (blanks 1) []
    rwa [List.append_nil, Lines.hang, ← indent_eq] at hs

end Lines

namespace Term

open Lines

/-- What starts a line when the properties of an object stand on lines of their own does so in the
code of the object. -/
theorem startsLine_objectText {part : Text} (hp : lineFeed ∉ part) {texts : List Text}
    (hne : texts ≠ []) (h : StartsLine part (lineFeed :: List.intercalate ",\n" texts)) :
    StartsLine part (objectText texts) := by
  have hindent : hang 1 (lineFeed :: List.intercalate ",\n" texts) =
      lineFeed :: indent 1 (List.intercalate ",\n" texts) := by
    rw [hang_cons, indent_eq, hang]
  rw [objectText, if_neg (by simpa using hne)]
  have hs := (h.hang hp 1).surround "z.object(\x7b" "\n\x7d)"
  rw [hindent] at hs
  exact hs

/-- The text of a property stands on a line of its own. -/
theorem exists_of_mem_texts {t : Text} {texts : List Text} (h : t ∈ texts) :
    ∃ front back, lineFeed :: List.intercalate ",\n" texts = front ++ lineFeed :: (t ++ back) := by
  obtain ⟨front, back, he, rfl | ⟨before, rfl⟩⟩ := exists_of_mem_intercalate ",\n" h
  · exact ⟨[], back, by rw [he]; rfl⟩
  · refine ⟨lineFeed :: before ++ ",", back, ?_⟩
    rw [he]
    simp only [List.append_assoc, List.cons_append]
    rfl

/-- What starts a line of the text of a property, when that has a line of its own, starts one of the
object. -/
theorem startsLine_object {part name : Text} {value : Term} {properties : List (Text × Term)}
    (h : (name, value) ∈ properties) (hp : lineFeed ∉ part)
    (hs : StartsLine part (lineFeed :: (name ++ ": " ++ value.text))) :
    StartsLine part (object properties).text := by
  have hm : name ++ ": " ++ value.text ∈ propertyTexts properties := by
    rw [propertyTexts_eq_map]
    exact List.mem_map_of_mem (f := fun e : Text × Term => e.1 ++ ": " ++ e.2.text) h
  refine startsLine_objectText hp (List.ne_nil_of_mem hm) ?_
  obtain ⟨front, back, he⟩ := exists_of_mem_texts hm
  rw [he]
  simpa only [List.append_assoc, List.cons_append] using hs.surround front back

end Term

namespace Context

open Lines

variable {c : Context}

/-- The written name of a property stands at the start of a line of the code, in however many
objects, lists and unions the object stands. -/
theorem startsLine_term {key : Text} {value : Node} {properties : Entries Node}
    {required : List Key} {node : Node} (hm : (.text key, value) ∈ properties)
    (hk : lineFeed ∉ PropertyName.writeText key)
    (hw : (Node.object properties required).IsWithin node) :
    ∀ path t, (c.term node path).outcome = .ok t →
      StartsLine (PropertyName.writeText key ++ ": ") t.text := by
  have hline : lineFeed ∉ PropertyName.writeText key ++ (": " : Text) := by
    rw [List.mem_append]
    exact not_or.mpr ⟨hk, by decide⟩
  refine carried_term (isCarried_startsLine hline) hw fun path t h => ?_
  rw [term] at h
  obtain ⟨parts, hp, h⟩ := Traced.bind_eq_ok.mp h
  obtain rfl := Traced.pure_eq_ok.mp h
  obtain ⟨name, -, value, hn, -, hpart⟩ := exists_of_mem_properties hp hm
  obtain rfl := Except.ok.inj hn
  exact Term.startsLine_object hpart hline ⟨[], 0, value.text, rfl⟩

end Context

namespace PropertyName

open Lines

/-- The written form of a key tells the key, wherever it is written. -/
structure IsTold (key : Text) : Prop where
  /-- It is the key, when that is plain, or a string that is read as the key. -/
  form : IsPlain key ∧ writeText key = key ∨ ¬ IsPlain key ∧
    (∃ inner : Text, writeText key = "\"" ++ inner ++ "\"") ∧
    Json.read (writeText key) = .ok (.text (Json.joinHalves key))
  /-- It is visible, so it has no end of a line. -/
  visible : (writeText key).IsVisible
  /-- Reading takes a key without pairs of surrogates for what it is. -/
  joined : key.IsJoined → Json.joinHalves key = key
  /-- Another key with the same form is read as the same key. -/
  apart : ∀ other, ¬ EndsLine other → writeText other = writeText key →
    Json.joinHalves other = Json.joinHalves key
  /-- In the code of a node it starts a line for every object inside that has the property. -/
  intact : ∀ (c : Context) (node : Node) (path : Key) (code : Text) (value : Node)
    (properties : Entries Node) (required : List Key),
    (c.expression node path).outcome = .ok code → (.text key, value) ∈ properties →
    (Node.object properties required).IsWithin node → StartsLine (writeText key ++ ": ") code

/-- Every key is told by its written form, unless it is plain but for the end of a line. -/
theorem key_isTold {key : Text} (h : ¬ EndsLine key) : IsTold key where
  form := by
    by_cases hp : IsPlain key
    · exact .inl ⟨hp, if_pos ((isBare_iff h).mpr hp)⟩
    · have hw : writeText key = Json.writeText key := if_neg (mt (isBare_iff h).mp hp)
      exact .inr ⟨hp, ⟨_, hw⟩, hw ▸ Json.read_writeText key⟩
  visible := isVisible_writeText h
  joined := Json.joinHalves_of_isJoined
  apart := fun _ ho hw => joinHalves_eq_of_writeText ho h hw
  intact := by
    intro c node path code value properties required hc hm hw
    obtain ⟨t, ht, hc⟩ := Traced.bind_eq_ok.mp hc
    obtain rfl := Traced.pure_eq_ok.mp hc
    have hline : lineFeed ∉ writeText key := fun hl =>
      absurd (isVisible_writeText h lineFeed hl).1 (by decide)
    exact Context.startsLine_term hm hline hw path t ht

/-- A key that ends with a line feed behind more than an identifier is told by its string. -/
theorem key_isTold_hyphen : ¬ EndsLine "a-\n" ∧ IsTold "a-\n" ∧
    writeText "a-\n" = "\"a-\\n\"" := by
  have h : ¬ EndsLine "a-\n" := by
    rintro ⟨name, hp, he⟩
    have hsplit : "a-" ++ "\n" = name ++ ("\n" : Text) := he
    obtain rfl := List.append_cancel_right hsplit
    exact absurd (hp.parts '-' (by decide)) (by decide)
  exact ⟨h, key_isTold h, by decide⟩

/-- A code point and the two surrogates that are its halves are different keys, but are written
alike, and both are read as the code point. -/
theorem writeText_eq_of_halves :
    ¬ EndsLine Context.wideKey ∧ ¬ EndsLine Context.halvesKey ∧
    Context.wideKey ≠ Context.halvesKey ∧
    writeText Context.wideKey = writeText Context.halvesKey ∧
    Json.read (writeText Context.halvesKey) = .ok (.text Context.wideKey) := by
  have last : ∀ key : Text, key.getLast? ≠ some lineFeed → ¬ EndsLine key := by
    rintro key hk ⟨name, -, rfl⟩
    exact hk (List.getLast?_append_of_ne_nil name (by decide))
  have hjoin : Json.joinHalves Context.halvesKey = Context.wideKey := by decide
  have hread := Json.read_writeText Context.halvesKey
  rw [hjoin] at hread
  exact ⟨last _ (by decide), last _ (by decide), by decide, by decide, hread⟩

end PropertyName

end ZodSchemas
