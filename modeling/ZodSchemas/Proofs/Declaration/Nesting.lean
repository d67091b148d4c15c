import ZodSchemas.Proofs.Declaration.Uses
import ZodSchemas.Proofs.Node.Inside
import ZodSchemas.Proofs.Text.Paragraph

/-!
# Code inside code

The code of a node that stands inside another one gets more code around it and,
for each object that it is in, blanks in front of its lines. So what stays true
of a text with more text around it, and of a text whose lines are moved to the
right, is true of the whole code when it is true of the code inside.
-/

namespace ZodSchemas

namespace Lines

/-- The lines of a text behind the first, moved to a level. -/
def hang (level : Int) (t : Text) : Text :=
  t.flatMap fun c => if c = lineFeed then lineFeed :: blanks level else [c]

/-- Texts are moved one after another. -/
theorem hang_append (level : Int) (a b : Text) :
    hang level (a ++ b) = hang level a ++ hang level b :=
  List.flatMap_append

/-- Behind a line feed the whole text is indented. -/
theorem hang_cons (level : Int) (t : Text) :
    hang level (lineFeed :: t) = lineFeed :: (blanks level ++ hang level t) := by
  rw [hang, List.flatMap_cons, if_pos rfl]
  rfl

/-- A part in one line stays as it is. -/
theorem hang_eq_self {level : Int} {t : Text} (h : lineFeed ∉ t) : hang level t = t := by
  induction t with
  | nil => rfl
  | cons c rest ih =>
    obtain ⟨hc, hr⟩ := List.ne_and_not_mem_of_not_mem_cons h
    rw [hang, List.flatMap_cons, if_neg (Ne.symm hc), ← hang, ih hr]
    rfl

/-- Each of some texts with a separator between them has the beginning or a separator in front. -/
theorem exists_of_mem_intercalate (between : Text) {t : Text} {texts : List Text} (h : t ∈ texts) :
    ∃ front back, List.intercalate between texts = front ++ (t ++ back) ∧
      (front = [] ∨ ∃ before, front = before ++ between) := by
  induction texts with
  | nil => simp at h
  | cons first rest ih =>
    cases rest with
    | nil =>
      obtain rfl := List.mem_singleton.mp h
      exact ⟨[], [], by simp, .inl rfl⟩
    | cons next rest =>
      rw [List.intercalate_cons_cons]
      rcases List.mem_cons.mp h with rfl | h
      · exact ⟨[], between ++ List.intercalate between (next :: rest),
          by simp only [List.nil_append, List.append_assoc], .inl rfl⟩
      · obtain ⟨front, back, he, hf⟩ := ih h
        refine ⟨first ++ between ++ front, back, by rw [he]; simp only [List.append_assoc], .inr ?_⟩
        rcases hf with rfl | ⟨before, rfl⟩
        · exact ⟨first, List.append_nil _⟩
        · exact ⟨first ++ between ++ before, (List.append_assoc _ _ _).symm⟩

/-- What is carried outwards: it stays true with more text around and when lines are moved. -/
structure IsCarried (p : Text → Prop) : Prop where
  /-- It stays true with more text around. -/
  surround : ∀ {t : Text}, p t → ∀ front back, p (front ++ t ++ back)
  /-- It stays true when the lines are moved to the right. -/
  indent : ∀ {t : Text}, p t → p (indent 1 t)

/-- A part in one line is carried outwards as it is. -/
theorem isCarried_part {part : Text} (h : lineFeed ∉ part) : IsCarried (part <:+: ·) where
  surround := by
    rintro t ⟨a, b, rfl⟩ front back
    exact ⟨front ++ a, b ++ back, by simp only [List.append_assoc]⟩
  indent := by
    rintro t ⟨a, b, rfl⟩
    rw [indent_eq, ← hang, hang_append, hang_append, hang_eq_self h]
    exact ⟨blanks 1 ++ hang 1 a, hang 1 b, by simp only [List.append_assoc]⟩

end Lines

namespace Term

open Lines

/-- The texts of properties, one by one. -/
theorem propertyTexts_eq_map (properties : List (Text × Term)) :
    propertyTexts properties = properties.map fun e => e.1 ++ (": " : Text) ++ e.2.text := by
  induction properties with
  | nil => rfl
  | cons e rest ih => rw [propertyTexts, ih, List.map_cons]

/-- The texts of options, one by one. -/
theorem optionTexts_eq_map (options : List Term) : optionTexts options = options.map text := by
  induction options with
  | nil => rfl
  | cons t rest ih => rw [optionTexts, ih, List.map_cons]

section Carried

variable {p : Text → Prop}

/-- What is carried outwards is carried from one of several texts to all of them. -/
theorem carried_intercalate (hp : IsCarried p) {t between : Text} {texts : List Text}
    (hm : t ∈ texts) (ht : p t) : p (List.intercalate between texts) := by
  obtain ⟨front, back, he, -⟩ := exists_of_mem_intercalate between hm
  rw [he, ← List.append_assoc]
  exact hp.surround ht front back

/-- What is carried outwards is carried from a property to the object. -/
theorem carried_object (hp : IsCarried p) {name : Text} {value : Term}
    {properties : List (Text × Term)} (hm : (name, value) ∈ properties) (hv : p value.text) :
    p (object properties).text := by
  have hin : name ++ ": " ++ value.text ∈ propertyTexts properties := by
    rw [propertyTexts_eq_map]
    exact List.mem_map_of_mem (f := fun e : Text × Term => e.1 ++ ": " ++ e.2.text) hm
  have hname : p (name ++ ": " ++ value.text) := by
    simpa using hp.surround hv (name ++ ": ") []
  rw [text, objectText, if_neg (by simpa using List.ne_nil_of_mem hin)]
  exact hp.surround (hp.indent (carried_intercalate hp hin hname)) _ _

/-- What is carried outwards is carried from an option to the union. -/
theorem carried_option (hp : IsCarried p) {option t : Term} {options : List Term}
    {key : Option Key} (hm : option ∈ options)
    (ht : (Context.unionTerm key options).outcome = .ok t) (ho : p option.text) : p t.text := by
  have hbracketed : p (bracketed (optionTexts options)) := by
    rw [bracketed, optionTexts_eq_map]
    exact hp.surround (carried_intercalate hp (List.mem_map_of_mem (f := text) hm) ho) _ _
  unfold Context.unionTerm at ht
  split at ht
  · obtain ⟨name, -, ht⟩ := Traced.bind_eq_ok.mp ht
    obtain rfl := Traced.pure_eq_ok.mp ht
    exact hp.surround hbracketed _ _
  · obtain rfl := Traced.pure_eq_ok.mp ht
    exact hp.surround hbracketed _ _

end Carried

end Term

namespace Context

open Lines

variable {c : Context}

/-- Each property is rendered, with its written name. -/
theorem exists_of_mem_properties {properties : List (Key × Node)} {path : Key}
    {parts : List (Text × Term)} (h : (c.propertyTerms properties path).outcome = .ok parts)
    {key : Key} {node : Node} (hm : (key, node) ∈ properties) :
    ∃ name place value, PropertyName.write key = .ok name ∧
      (c.term node place).outcome = .ok value ∧ (name, value) ∈ parts := by
  induction properties generalizing parts with
  | nil => simp at hm
  | cons e rest ih =>
    obtain ⟨k, first⟩ := e
    rw [propertyTerms] at h
    obtain ⟨name, hn, h⟩ := Traced.bind_eq_ok.mp h
    obtain ⟨step, -, h⟩ := Traced.bind_eq_ok.mp h
    obtain ⟨place, -, h⟩ := Traced.bind_eq_ok.mp h
    obtain ⟨value, hv, h⟩ := Traced.bind_eq_ok.mp h
    obtain ⟨others, ho, h⟩ := Traced.bind_eq_ok.mp h
    obtain rfl := Traced.pure_eq_ok.mp h
    rcases List.mem_cons.mp hm with he | hm
    · cases he
      exact ⟨name, place, value, written_eq_ok.mp hn, hv, by simp⟩
    · obtain ⟨name', place', value', hw, ht, hp⟩ := ih ho hm
      exact ⟨name', place', value', hw, ht, List.mem_cons_of_mem _ hp⟩

/-- Each option is rendered. -/
theorem exists_of_mem_options {options : List Node} {index : Nat} {path : Key} {parts : List Term}
    (h : (c.optionTerms index options path).outcome = .ok parts) {option : Node}
    (hm : option ∈ options) :
    ∃ place t, (c.term option place).outcome = .ok t ∧ t ∈ parts := by
  induction options generalizing index parts with
  | nil => simp at hm
  | cons first rest ih =>
    rw [optionTerms] at h
    obtain ⟨place, -, h⟩ := Traced.bind_eq_ok.mp h
    obtain ⟨t, ht, h⟩ := Traced.bind_eq_ok.mp h
    obtain ⟨others, ho, h⟩ := Traced.bind_eq_ok.mp h
    obtain rfl := Traced.pure_eq_ok.mp h
    rcases List.mem_cons.mp hm with rfl | hm
    · exact ⟨place, t, ht, by simp⟩
    · obtain ⟨place', t', ht', hp⟩ := ih ho hm
      exact ⟨place', t', ht', List.mem_cons_of_mem _ hp⟩

/-- What is carried outwards is carried from the code of a node to that of any node that it is
inside of. -/
theorem carried_term {p : Text → Prop} (hp : IsCarried p) {inner node : Node}
    (hw : inner.IsWithin node)
    (hi : ∀ path t, (c.term inner path).outcome = .ok t → p t.text) :
    ∀ path t, (c.term node path).outcome = .ok t → p t.text := by
  induction hw with
  | refl => exact hi
  | @tail part whole _ hpart ih =>
    intro path t h
    cases hpart with
    | property member =>
      rw [term] at h
      obtain ⟨parts, hparts, h⟩ := Traced.bind_eq_ok.mp h
      obtain rfl := Traced.pure_eq_ok.mp h
      obtain ⟨name, place, value, -, hv, hin⟩ := exists_of_mem_properties hparts member
      exact Term.carried_object hp hin (ih place value hv)
    | element =>
      rw [term] at h
      obtain ⟨place, -, h⟩ := Traced.bind_eq_ok.mp h
      obtain ⟨element, he, h⟩ := Traced.bind_eq_ok.mp h
      obtain rfl := Traced.pure_eq_ok.mp h
      exact hp.surround (ih place element he) _ _
    | option member =>
      rw [term] at h
      obtain ⟨parts, hparts, h⟩ := Traced.bind_eq_ok.mp h
      obtain ⟨tag, -, h⟩ := Traced.bind_eq_ok.mp h
      obtain ⟨place, option, ho, hin⟩ := exists_of_mem_options hparts member
      exact Term.carried_option hp hin h (ih place option ho)
    | nullable =>
      rw [term] at h
      obtain ⟨inner, hinner, h⟩ := Traced.bind_eq_ok.mp h
      obtain rfl := Traced.pure_eq_ok.mp h
      exact hp.surround (ih path inner hinner) [] _
    | optional =>
      rw [term] at h
      obtain ⟨inner, hinner, h⟩ := Traced.bind_eq_ok.mp h
      obtain rfl := Traced.pure_eq_ok.mp h
      exact hp.surround (ih path inner hinner) [] _

end Context

end ZodSchemas
