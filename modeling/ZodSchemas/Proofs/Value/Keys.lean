import ZodSchemas.Node.Basic

/-!
# Keys that find the same entries

Keys are told apart by what they denote, so two different keys may find one
entry. Membership among keys and every look-up respect that, and a list in
which no two keys are the same stands for the keys of a mapping. Entries made
from pairs have such keys, whatever the pairs were.
-/

namespace ZodSchemas

namespace Key

/-- The same key finds what another one does, seen from the right. -/
theorem same_right {a b c : Key} (h : a.same b = true) : c.same a = c.same b := by
  simp only [same, decide_eq_true_eq] at h ⊢
  rw [h]

/-- The same key finds what another one does, seen from the left. -/
theorem same_left {a b c : Key} (h : a.same b = true) : a.same c = b.same c := by
  rw [same_comm a c, same_comm b c, same_right h]

/-- A text is the same key as nothing but itself. -/
theorem eq_text_of_same {t : Text} {key : Key} (h : key.same (.text t) = true) :
    key = .text t := by
  simp only [same, decide_eq_true_eq] at h
  cases key with
  | text s => simpa [meaning] using h
  | moment m =>
    unfold meaning at h
    split at h <;> simp at h
  | _ => simp [meaning] at h

@[simp] theorem isAmong_nil (key : Key) : key.isAmong [] = false := rfl

@[simp] theorem isAmong_cons (key k : Key) (rest : List Key) :
    key.isAmong (k :: rest) = (k.same key || key.isAmong rest) := rfl

@[simp] theorem isAmong_append (key : Key) (front back : List Key) :
    key.isAmong (front ++ back) = (key.isAmong front || key.isAmong back) := by
  simp [isAmong]

/-- A key is among some keys exactly when one of them is the same. -/
theorem isAmong_iff {key : Key} {keys : List Key} :
    key.isAmong keys = true ↔ ∃ k ∈ keys, k.same key = true := by
  simp [isAmong]

/-- A member is among the keys. -/
theorem isAmong_of_mem {key : Key} {keys : List Key} (h : key ∈ keys) :
    key.isAmong keys = true :=
  isAmong_iff.mpr ⟨key, h, same_self key⟩

/-- The same keys are among the same lists. -/
theorem isAmong_congr {a b : Key} (h : a.same b = true) (keys : List Key) :
    a.isAmong keys = b.isAmong keys := by
  induction keys with
  | nil => rfl
  | cons k rest ih => rw [isAmong_cons, isAmong_cons, same_right h, ih]

/-- A text that is among some keys is one of them. -/
theorem text_mem_of_isAmong {t : Text} {keys : List Key}
    (h : (Key.text t).isAmong keys = true) : Key.text t ∈ keys := by
  obtain ⟨k, hk, hs⟩ := isAmong_iff.mp h
  rwa [← eq_text_of_same hs]

/-- A key that is among texts is one of them. -/
theorem mem_texts_of_isAmong {key : Key} (names : List Text)
    (h : key.isAmong (names.map .text) = true) : key ∈ names.map .text := by
  obtain ⟨k, hk, hs⟩ := isAmong_iff.mp h
  obtain ⟨t, -, rfl⟩ := List.mem_map.mp hk
  rw [same_comm] at hs
  rwa [eq_text_of_same hs]

end Key

/-- No two keys of a list are the same. -/
def KeysDiffer (keys : List Key) : Prop := keys.Pairwise fun a b => a.same b = false

/-- The first key of a list whose keys differ is none of the others. -/
theorem KeysDiffer.not_among {k : Key} {rest : List Key} (h : KeysDiffer (k :: rest)) :
    k.isAmong rest = false := by
  rw [← Bool.not_eq_true, Key.isAmong_iff]
  rintro ⟨other, ho, hs⟩
  have hd := (List.pairwise_cons.mp h).1 other ho
  rw [Key.same_comm, hs] at hd
  simp at hd

/-- The keys of two lists differ when they differ in each and none of the first is in the
second. -/
theorem KeysDiffer.append {front back : List Key} (hf : KeysDiffer front) (hb : KeysDiffer back)
    (h : ∀ k ∈ front, k.isAmong back = false) : KeysDiffer (front ++ back) := by
  refine List.pairwise_append.mpr ⟨hf, hb, fun a ha b hm => ?_⟩
  rw [← Bool.not_eq_true]
  intro hs
  have hn := h a ha
  rw [Key.isAmong_congr hs, Key.isAmong_of_mem hm] at hn
  simp at hn

/-- Different keys that are the same are one. -/
theorem KeysDiffer.eq_of_same {keys : List Key} (h : KeysDiffer keys) {a b : Key} (ha : a ∈ keys)
    (hb : b ∈ keys) (hs : a.same b = true) : a = b := by
  induction keys with
  | nil => simp at ha
  | cons k rest ih =>
    obtain ⟨hk, hr⟩ := List.pairwise_cons.mp h
    rcases List.mem_cons.mp ha with rfl | ha'
    · rcases List.mem_cons.mp hb with rfl | hb'
      · rfl
      · simp [hk b hb'] at hs
    · rcases List.mem_cons.mp hb with rfl | hb'
      · rw [Key.same_comm, hk a ha'] at hs
        simp at hs
      · exact ih hr ha' hb'

/-- Different keys come once each. -/
theorem KeysDiffer.nodup {keys : List Key} (h : KeysDiffer keys) : keys.Nodup := by
  refine h.imp fun hs => ?_
  rintro rfl
  simp at hs

/-- The keys of a front are none of those behind. -/
theorem KeysDiffer.not_among_back {front back : List Key} (h : KeysDiffer (front ++ back)) {k : Key}
    (hk : k ∈ front) : k.isAmong back = false := by
  rw [← Bool.not_eq_true, Key.isAmong_iff]
  rintro ⟨other, ho, hs⟩
  have hd := (List.pairwise_append.mp h).2.2 k hk other ho
  rw [Key.same_comm, hs] at hd
  simp at hd

/-- The keys of a back are none of those in front. -/
theorem KeysDiffer.not_among_front {front back : List Key} (h : KeysDiffer (front ++ back))
    {k : Key} (hk : k ∈ back) : k.isAmong front = false := by
  rw [← Bool.not_eq_true, Key.isAmong_iff]
  rintro ⟨other, ho, hs⟩
  have hd := (List.pairwise_append.mp h).2.2 other ho k hk
  rw [hs] at hd
  simp at hd

/-- The distinct keys of a list are those of the list. -/
theorem isAmong_distinctKeys (key : Key) (keys : List Key) :
    key.isAmong (distinctKeys keys) = key.isAmong keys := by
  induction keys with
  | nil => rfl
  | cons k rest ih =>
    rw [distinctKeys, Key.isAmong_cons, Key.isAmong_cons]
    cases hk : k.same key with
    | true => rfl
    | false =>
      rw [← ih, Bool.false_or, Bool.false_or, Bool.eq_iff_iff, Key.isAmong_iff, Key.isAmong_iff]
      constructor
      · rintro ⟨other, ho, hs⟩
        exact ⟨other, (List.mem_filter.mp ho).1, hs⟩
      · rintro ⟨other, ho, hs⟩
        refine ⟨other, List.mem_filter.mpr ⟨ho, ?_⟩, hs⟩
        rw [Key.same_right hs, hk]
        rfl

/-- A key without repetitions is one of the keys. -/
theorem mem_of_mem_distinctKeys {key : Key} {keys : List Key} (h : key ∈ distinctKeys keys) :
    key ∈ keys := by
  induction keys with
  | nil => exact h
  | cons k rest ih =>
    rcases List.mem_cons.mp h with rfl | h
    · simp
    · exact List.mem_cons_of_mem _ (ih (List.mem_filter.mp h).1)

namespace Entries

variable {α : Type}

/-- The same keys find the same entry. -/
theorem find?_congr {a b : Key} (h : a.same b = true) (entries : Entries α) :
    find? a entries = find? b entries := by
  induction entries with
  | nil => rfl
  | cons e rest ih =>
    obtain ⟨k, v⟩ := e
    rw [find?, find?, Key.same_right h, ih]

@[simp] theorem keys_cons (e : Key × α) (rest : Entries α) : keys (e :: rest) = e.1 :: keys rest :=
  rfl

/-- The keys of entries behind others come behind those of the others. -/
theorem keys_append (entries others : Entries α) :
    keys (entries ++ others) = keys entries ++ keys others :=
  List.map_append

/-- A key is present exactly when it is among the keys. -/
theorem has_eq_isAmong (key : Key) (entries : Entries α) :
    has key entries = key.isAmong (keys entries) := by
  induction entries with
  | nil => rfl
  | cons e rest ih =>
    obtain ⟨k, v⟩ := e
    simp only [has, find?, keys_cons, Key.isAmong_cons] at ih ⊢
    split
    · next h => simp [h]
    · next h => simp [h, ih]

/-- The same keys are present in the same entries. -/
theorem has_congr {a b : Key} (h : a.same b = true) (entries : Entries α) :
    has a entries = has b entries := by
  rw [has, has, find?_congr h]

/-- What is found is present. -/
theorem has_of_find? {key : Key} {entries : Entries α} {a : α}
    (h : find? key entries = some a) : has key entries = true := by
  rw [has, h]
  rfl

/-- What is present can be found. -/
theorem exists_find? {key : Key} {entries : Entries α} (h : has key entries = true) :
    ∃ a, find? key entries = some a :=
  Option.isSome_iff_exists.mp h

/-- An entry whose keys differ from all others is what its key finds. -/
theorem find?_of_mem {entries : Entries α} (hd : KeysDiffer (keys entries)) {e : Key × α}
    (he : e ∈ entries) : find? e.1 entries = some e.2 := by
  induction entries with
  | nil => simp at he
  | cons f rest ih =>
    obtain ⟨hf, hr⟩ := List.pairwise_cons.mp hd
    rcases List.mem_cons.mp he with rfl | he
    · simp [find?]
    · rw [find?, hf e.1 (List.mem_map_of_mem he)]
      exact ih hr he

/-- Erasing an entry leaves the others in their order. -/
theorem erase_sublist (key : Key) (entries : Entries α) :
    (erase key entries).Sublist entries := by
  induction entries with
  | nil => exact List.Sublist.refl _
  | cons e rest ih =>
    obtain ⟨k, v⟩ := e
    rw [erase]
    split
    · exact List.sublist_cons_self _ _
    · exact ih.cons_cons _

/-- The keys of a part of some entries are in their order. -/
theorem keys_sublist {some all : Entries α} (h : some.Sublist all) :
    (keys some).Sublist (keys all) := h.map _

/-- Erasing a key that is present leaves one entry less. -/
theorem length_erase {key : Key} {entries : Entries α} (h : has key entries = true) :
    (erase key entries).length + 1 = entries.length := by
  induction entries with
  | nil => simp [has, find?] at h
  | cons e rest ih =>
    obtain ⟨k, v⟩ := e
    rw [erase]
    split
    · rfl
    · next hk =>
      have hr : has key rest = true := by simpa [has, find?, hk] using h
      simpa using ih hr

/-- After a key was erased the other keys find what they found before. -/
theorem find?_erase {key other : Key} {entries : Entries α} (hd : KeysDiffer (keys entries)) :
    find? other (erase key entries) = if key.same other then none else find? other entries := by
  induction entries with
  | nil => simp [erase, find?]
  | cons e rest ih =>
    obtain ⟨k, v⟩ := e
    have hn : has k rest = false := by
      rw [has_eq_isAmong]
      exact KeysDiffer.not_among hd
    have hr := ih (List.pairwise_cons.mp hd).2
    rw [erase, find?]
    split
    · next hk =>
      rw [← Key.same_left hk]
      cases ho : k.same other with
      | false => rfl
      | true => simpa [has, ← find?_congr ho] using hn
    · next hk =>
      rw [find?, hr]
      cases ho : k.same other with
      | false => rfl
      | true =>
        have hs : key.same other = false := by
          rw [← Key.same_right ho, Key.same_comm]
          simpa using hk
        simp [hs]

/-- After a key was erased exactly the other keys are present. -/
theorem has_erase {key other : Key} {entries : Entries α} (hd : KeysDiffer (keys entries)) :
    has other (erase key entries) = (has other entries && !key.same other) := by
  rw [has, find?_erase hd, has]
  cases key.same other <;> simp

/-- What is found in a part of some entries is found in all of them. -/
theorem find?_of_sublist {some all : Entries α} (h : some.Sublist all)
    (hd : KeysDiffer (keys all)) {key : Key} {a : α} (ha : find? key some = .some a) :
    find? key all = .some a := by
  induction h with
  | slnil => exact ha
  | @cons part whole e hs ih =>
    obtain ⟨k, v⟩ := e
    have hp := has_of_find? ha
    have hw := ih (List.pairwise_cons.mp hd).2 ha
    have hk : k.same key = false := by
      rw [← Bool.not_eq_true]
      intro hk
      have hn : k.isAmong (keys whole) = false := KeysDiffer.not_among hd
      rw [Key.isAmong_congr hk, ← has_eq_isAmong, has_of_find? hw] at hn
      simp at hn
    rw [find?, hk]
    exact hw
  | @cons_cons part whole e hs ih =>
    obtain ⟨k, v⟩ := e
    rw [find?] at ha ⊢
    split at ha
    · next hk => rw [if_pos hk]; exact ha
    · next hk =>
      rw [if_neg hk]
      exact ih (List.pairwise_cons.mp hd).2 ha

/-- The keys of a part are those of the whole that are present in the part. -/
theorem keys_eq_filter {some all : Entries α} (h : some.Sublist all)
    (hd : KeysDiffer (keys all)) : keys some = (keys all).filter fun k => has k some := by
  induction h with
  | slnil => rfl
  | @cons part whole e hs ih =>
    have hn : has e.1 part = false := by
      rw [← Bool.not_eq_true]
      intro hp
      obtain ⟨a, ha⟩ := exists_find? hp
      have hw := has_of_find? (find?_of_sublist hs (List.pairwise_cons.mp hd).2 ha)
      have hk : e.1.isAmong (keys whole) = false := KeysDiffer.not_among hd
      rw [has_eq_isAmong, hk] at hw
      simp at hw
    rw [keys_cons, List.filter_cons_of_neg (by simp [hn])]
    exact ih (List.pairwise_cons.mp hd).2
  | @cons_cons part whole e hs ih =>
    obtain ⟨k, v⟩ := e
    obtain ⟨hf, hr⟩ := List.pairwise_cons.mp hd
    have hk : (keys whole).filter (fun other => has other ((k, v) :: part)) =
        (keys whole).filter fun other => has other part := by
      refine List.filter_congr fun other ho => ?_
      simp [has, find?, hf other ho]
    rw [keys_cons, keys_cons, List.filter_cons_of_pos (by simp [has, find?])]
    exact congrArg (k :: ·) ((ih hr).trans hk.symm)

/-- Names that list the keys of some entries in their order list those of every part. -/
theorem filter_has_of_sublist {some all : Entries α} {names : List Key} (h : some.Sublist all)
    (hd : KeysDiffer (keys all)) (hn : names.filter (fun k => has k all) = keys all) :
    names.filter (fun k => has k some) = keys some := by
  rw [keys_eq_filter h hd, ← hn, List.filter_filter]
  refine List.filter_congr fun k _ => ?_
  cases hp : has k some with
  | false => rfl
  | true =>
    obtain ⟨a, ha⟩ := exists_find? hp
    rw [has_of_find? (find?_of_sublist h hd ha)]
    rfl

/-- Writing to entries whose keys differ keeps that so. -/
theorem keysDiffer_put {key : Key} {a : α} {entries : Entries α} (h : KeysDiffer (keys entries)) :
    KeysDiffer (keys (put key a entries)) := by
  cases hp : has key entries with
  | true => rwa [keys_put_of_has a hp]
  | false =>
    rw [keys_put_of_not_has a hp]
    refine h.append (List.pairwise_singleton _ _) fun k hk => ?_
    rw [Key.isAmong_cons, Key.isAmong_nil, Bool.or_false, ← Bool.not_eq_true]
    intro hs
    rw [has_eq_isAmong, Key.isAmong_congr hs, Key.isAmong_of_mem hk] at hp
    simp at hp

/-- A key is present after a write exactly when it was or was written. -/
theorem has_put (key other : Key) (a : α) (entries : Entries α) :
    has other (put key a entries) = (has other entries || key.same other) := by
  cases hk : key.same other with
  | true => rw [← has_congr hk, has, find?_put_self, Option.isSome_some, Bool.or_true]
  | false =>
    rw [Key.same_comm] at hk
    rw [has, find?_put_of_ne hk, Bool.or_false]
    rfl

/-- Merging into entries whose keys differ keeps that so. -/
theorem keysDiffer_merge {entries others : Entries α} (h : KeysDiffer (keys entries)) :
    KeysDiffer (keys (merge entries others)) := by
  induction others generalizing entries with
  | nil => exact h
  | cons e rest ih => exact ih (keysDiffer_put h)

/-- A key is present after a merge exactly when it is on one of the two sides. -/
theorem has_merge (key : Key) (entries others : Entries α) :
    has key (merge entries others) = (has key entries || has key others) := by
  induction others generalizing entries with
  | nil => simp [merge, has, find?]
  | cons e rest ih =>
    have hm := ih (put e.1 e.2 entries)
    rw [has_put, Bool.or_assoc] at hm
    rw [has_eq_isAmong key (e :: rest), keys_cons, Key.isAmong_cons, ← has_eq_isAmong]
    exact hm

/-- The keys of entries made from pairs differ. -/
theorem keysDiffer_ofPairs (pairs : List (Key × α)) : KeysDiffer (keys (ofPairs pairs)) :=
  keysDiffer_merge List.Pairwise.nil

/-- A merge finds what the second side has, and else what the first has. -/
theorem find?_merge (key : Key) {entries others : Entries α} (h : KeysDiffer (keys others)) :
    find? key (merge entries others) = (find? key others).or (find? key entries) := by
  induction others generalizing entries with
  | nil => rfl
  | cons e rest ih =>
    obtain ⟨k, a⟩ := e
    obtain ⟨hk, hr⟩ := List.pairwise_cons.mp h
    have hstep : find? key (merge entries ((k, a) :: rest)) =
        (find? key rest).or (find? key (put k a entries)) := ih hr
    rw [hstep, find?]
    cases hs : k.same key with
    | true =>
      have hn : find? key rest = none := by
        have ha : k.isAmong (keys rest) = false := KeysDiffer.not_among h
        rw [Key.isAmong_congr hs, ← has_eq_isAmong] at ha
        simpa [has] using ha
      rw [hn, ← find?_congr hs, find?_put_self]
      rfl
    | false => rw [find?_put_of_ne (by rwa [Key.same_comm])]; rfl

/-- Merging entries with new and different keys puts them behind those that are there. -/
theorem merge_eq_append {entries others : Entries α} (h : KeysDiffer (keys (entries ++ others))) :
    merge entries others = entries ++ others := by
  induction others generalizing entries with
  | nil => exact (List.append_nil _).symm
  | cons e rest ih =>
    have hn : e.1.isAmong (keys entries) = false := by
      rw [keys_append] at h
      exact h.not_among_front (by simp)
    have hp : ∀ es : Entries α, e.1.isAmong (keys es) = false → put e.1 e.2 es = es ++ [e] := by
      intro es
      induction es with
      | nil => intro _; rfl
      | cons f tail iht =>
        intro hf
        obtain ⟨k, v⟩ := f
        simp only [keys_cons, Key.isAmong_cons, Bool.or_eq_false_iff] at hf
        rw [put, hf.1]
        exact congrArg ((k, v) :: ·) (iht hf.2)
    have he : entries ++ e :: rest = (entries ++ [e]) ++ rest := by simp
    rw [he] at h ⊢
    rw [← ih h, ← hp entries hn]
    rfl

/-- Pairs whose keys differ are entries as they are. -/
theorem ofPairs_eq_self {pairs : Entries α} (h : KeysDiffer (keys pairs)) :
    ofPairs pairs = pairs :=
  merge_eq_append h

/-- What belongs to a key is changed with all the others. -/
theorem find?_map {β : Type} (f : α → β) (key : Key) (entries : Entries α) :
    find? key (entries.map fun (k, a) => (k, f a)) = (find? key entries).map f := by
  induction entries with
  | nil => rfl
  | cons e rest ih =>
    obtain ⟨k, a⟩ := e
    rw [List.map_cons, find?, find?, ih]
    split <;> rfl

/-- A key finds what is in front, and else what is behind. -/
theorem find?_append (key : Key) (entries others : Entries α) :
    find? key (entries ++ others) = (find? key entries).or (find? key others) := by
  induction entries with
  | nil => rfl
  | cons e rest ih =>
    obtain ⟨k, a⟩ := e
    rw [List.cons_append, find?, find?, ih]
    split <;> rfl

/-- A key that is not among some entries finds what it finds in front of them. -/
theorem find?_append_of_not_has {key : Key} {others : Entries α} (h : has key others = false)
    (entries : Entries α) : find? key (entries ++ others) = find? key entries := by
  have hn : find? key others = none := by simpa [has] using h
  rw [find?_append, hn, Option.or_none]

/-- A key finds the same in every order of different keys. -/
theorem find?_perm {entries others : Entries α} (hd : KeysDiffer (keys entries))
    (hp : entries.Perm others) (key : Key) : find? key entries = find? key others := by
  have hd' : KeysDiffer (keys others) :=
    hd.perm (hp.map _) fun h => by rwa [Key.same_comm]
  have found : ∀ {xs ys : Entries α}, KeysDiffer (keys ys) → xs.Perm ys → ∀ {a : α},
      find? key xs = some a → find? key ys = some a := by
    intro xs ys hd hp a h
    obtain ⟨k, hk, hm⟩ := mem_of_find? h
    rw [← find?_congr hk]
    exact find?_of_mem hd (hp.mem_iff.mp hm)
  cases ho : find? key others with
  | some a => exact found hd hp.symm ho
  | none =>
    cases he : find? key entries with
    | none => rfl
    | some a => simp [found hd' hp he] at ho

/-- Where all that is written under a key is the same, a merge finds it. -/
theorem find?_merge_of_forall {key : Key} {a : α} {entries others : Entries α}
    (hh : has key others = true) (h : ∀ e ∈ others, e.1.same key = true → e.2 = a) :
    find? key (merge entries others) = some a := by
  have kept : ∀ (others entries : Entries α), (∀ e ∈ others, e.1.same key = true → e.2 = a) →
      find? key entries = some a → find? key (merge entries others) = some a := by
    intro others
    induction others with
    | nil => exact fun _ _ hf => hf
    | cons e rest ih =>
      intro entries h hf
      refine ih _ (fun e he => h e (List.mem_cons_of_mem _ he)) ?_
      cases hk : e.1.same key with
      | true => rw [← find?_congr hk, find?_put_self, h e (by simp) hk]
      | false => rw [find?_put_of_ne (by rwa [Key.same_comm]), hf]
  induction others generalizing entries with
  | nil => simp [has, find?] at hh
  | cons e rest ih =>
    have hrest : ∀ e ∈ rest, e.1.same key = true → e.2 = a :=
      fun e he => h e (List.mem_cons_of_mem _ he)
    cases hk : e.1.same key with
    | true =>
      refine kept rest _ hrest ?_
      rw [← find?_congr hk, find?_put_self, h e (by simp) hk]
    | false => exact ih (by simpa [has, find?, hk] using hh) hrest

end Entries

end ZodSchemas
