import ZodSchemas.Proofs.Value.Keys

/-!
# Entries laid over one another

Pairs in which keys may come again stand for the entries in which each key has
its first place and its last value. Merging one pair after another makes just
these. So it does not matter in which groups pairs are merged, and merging what
was merged before changes nothing.
-/

namespace ZodSchemas

/-- Keys that come behind others are kept unless they are among those. -/
theorem distinctKeys_append (front back : List Key) : distinctKeys (front ++ back) =
    distinctKeys front ++ (distinctKeys back).filter fun k => !k.isAmong front := by
  induction front with
  | nil => exact (List.filter_eq_self.mpr fun _ _ => rfl).symm
  | cons k rest ih =>
    have hfilter : ∀ keys : List Key,
        (keys.filter fun other => !other.isAmong rest).filter (fun other => !k.same other) =
          keys.filter fun other => !other.isAmong (k :: rest) := by
      intro keys
      rw [List.filter_filter]
      exact List.filter_congr fun other _ => by simp [Bool.not_or]
    rw [List.cons_append, distinctKeys, ih, List.filter_append, hfilter, distinctKeys,
      List.cons_append]

/-- Keys without repetitions differ. -/
theorem keysDiffer_distinctKeys (keys : List Key) : KeysDiffer (distinctKeys keys) := by
  induction keys with
  | nil => exact List.Pairwise.nil
  | cons k rest ih =>
    refine List.pairwise_cons.mpr ⟨fun other ho => ?_, ih.sublist List.filter_sublist⟩
    simpa using (List.mem_filter.mp ho).2

/-- Keys that differ have no repetitions. -/
theorem distinctKeys_eq_self {keys : List Key} (h : KeysDiffer keys) :
    distinctKeys keys = keys := by
  induction keys with
  | nil => rfl
  | cons k rest ih =>
    obtain ⟨hk, hr⟩ := List.pairwise_cons.mp h
    rw [distinctKeys, ih hr]
    exact congrArg (k :: ·) (List.filter_eq_self.mpr fun other ho => by simp [hk other ho])

/-- Keys that all come again bring nothing new. -/
theorem distinctKeys_append_self (keys : List Key) :
    distinctKeys (keys ++ keys) = distinctKeys keys := by
  have hnone : ((distinctKeys keys).filter fun k => !k.isAmong keys) = [] := by
    refine List.filter_eq_nil_iff.mpr fun k hk => ?_
    simp [Key.isAmong_of_mem (mem_of_mem_distinctKeys hk)]
  rw [distinctKeys_append, hnone, List.append_nil]

namespace Entries

variable {α : Type}

/-- Entries with the same keys in the same order are the same when the keys find the same. -/
theorem eq_of_find? {entries others : Entries α} (hk : keys entries = keys others)
    (hd : KeysDiffer (keys entries))
    (h : ∀ key ∈ keys entries, find? key entries = find? key others) : entries = others := by
  induction entries generalizing others with
  | nil =>
    cases others with
    | nil => rfl
    | cons e rest => simp [keys] at hk
  | cons e rest ih =>
    cases others with
    | nil => simp [keys] at hk
    | cons f rest' =>
      obtain ⟨k, a⟩ := e
      obtain ⟨k', b⟩ := f
      obtain ⟨rfl, hkeys⟩ : k = k' ∧ keys rest = keys rest' := by simpa using hk
      obtain ⟨hfirst, hrest⟩ := List.forall_mem_cons.mp h
      obtain ⟨hne, hd⟩ := List.pairwise_cons.mp hd
      obtain rfl : a = b := by simpa [find?] using hfirst
      refine congrArg ((k, a) :: ·) (ih hkeys hd fun key hkey => ?_)
      simpa [find?, hne key hkey] using hrest key hkey

/-- A merge finds what was written last under a key, and else what was there before. -/
theorem find?_merge_reverse (key : Key) (entries others : Entries α) :
    find? key (merge entries others) = (find? key others.reverse).or (find? key entries) := by
  induction others generalizing entries with
  | nil => rfl
  | cons e rest ih =>
    obtain ⟨k, a⟩ := e
    have hstep : find? key (merge entries ((k, a) :: rest)) =
        (find? key rest.reverse).or (find? key (put k a entries)) := ih _
    rw [hstep, List.reverse_cons, find?_append, Option.or_assoc]
    congr 1
    cases hs : k.same key with
    | true =>
      rw [← find?_congr hs, find?_put_self]
      simp [find?, hs, ← find?_congr hs]
    | false =>
      rw [find?_put_of_ne (by rwa [Key.same_comm])]
      simp [find?, hs]

/-- A merge has the keys that were there and behind them the new ones, each where it first comes. -/
theorem keys_merge (entries others : Entries α) : keys (merge entries others) =
    keys entries ++ (distinctKeys (keys others)).filter fun k => !k.isAmong (keys entries) := by
  induction others generalizing entries with
  | nil => simp [merge, keys, distinctKeys]
  | cons e rest ih =>
    obtain ⟨k, a⟩ := e
    have hstep : keys (merge entries ((k, a) :: rest)) =
        keys (put k a entries) ++
          (distinctKeys (keys rest)).filter fun x => !x.isAmong (keys (put k a entries)) := ih _
    rw [hstep, keys_cons, distinctKeys]
    cases hp : has k entries with
    | true =>
      -- What is the same key as one that is there is there as well.
      have hin : k.isAmong (keys entries) = true := by rwa [← has_eq_isAmong]
      rw [keys_put_of_has a hp, List.filter_cons_of_neg (by simp [hin]), List.filter_filter]
      congr 1
      refine List.filter_congr fun x _ => ?_
      cases hs : k.same x with
      | false => simp
      | true => simp [← Key.isAmong_congr hs, hin]
    | false =>
      have hout : k.isAmong (keys entries) = false := by rwa [← has_eq_isAmong]
      rw [keys_put_of_not_has a hp, List.filter_cons_of_pos (by simp [hout]), List.filter_filter,
        List.append_assoc]
      refine congrArg (fun back => keys entries ++ (k :: back)) ?_
      exact List.filter_congr fun x _ => by simp [Bool.not_or]

/-- Each key of some pairs at its first place, with its last value. -/
def overlaid (pairs : List (Key × α)) : Entries α :=
  (distinctKeys (keys pairs)).filterMap fun k => (find? k pairs.reverse).map fun a => (k, a)

/-- Entries with some keys, each of which has a value, have these keys and find those values. -/
theorem filterMap_spec {f : Key → Option α} {names : List Key} (hf : ∀ k ∈ names, (f k).isSome)
    (hd : KeysDiffer names) :
    keys (names.filterMap fun k => (f k).map fun a => (k, a)) = names ∧ ∀ k ∈ names,
      find? k (names.filterMap fun k => (f k).map fun a => (k, a)) = f k := by
  induction names with
  | nil => exact ⟨rfl, by simp⟩
  | cons k rest ih =>
    obtain ⟨a, ha⟩ := Option.isSome_iff_exists.mp (hf k (by simp))
    obtain ⟨hkeys, hfind⟩ := ih (fun x hx => hf x (List.mem_cons_of_mem _ hx))
      (List.pairwise_cons.mp hd).2
    rw [List.filterMap_cons_some (by rw [ha]; rfl), keys_cons, hkeys]
    refine ⟨rfl, List.forall_mem_cons.mpr ⟨by simp [find?, ha], fun x hx => ?_⟩⟩
    simp [find?, (List.pairwise_cons.mp hd).1 x hx, hfind x hx]

/-- A key of some pairs finds a value from either end. -/
theorem isSome_find?_reverse {k : Key} {pairs : Entries α} (h : k.isAmong (keys pairs) = true) :
    (find? k pairs.reverse).isSome = true := by
  have hreverse : has k pairs.reverse = k.isAmong (keys pairs).reverse := by
    rw [has_eq_isAmong, keys, List.map_reverse]
    rfl
  rw [← has, hreverse, Key.isAmong_iff]
  obtain ⟨other, ho, hs⟩ := Key.isAmong_iff.mp h
  exact ⟨other, List.mem_reverse.mpr ho, hs⟩

/-- Pairs that are written one after another keep the place where each key first comes. -/
theorem keys_ofPairs (pairs : List (Key × α)) :
    keys (ofPairs pairs) = distinctKeys (keys pairs) := by
  rw [ofPairs, keys_merge]
  exact List.filter_eq_self.mpr fun _ _ => rfl

/-- Pairs that are written one after another keep what is written last under each key. -/
theorem find?_ofPairs (key : Key) (pairs : List (Key × α)) :
    find? key (ofPairs pairs) = find? key pairs.reverse := by
  rw [ofPairs, find?_merge_reverse]
  exact Option.or_none

/-- Pairs that are written one after another end up with each key at its first place and with its
last value. -/
theorem ofPairs_eq_overlaid (pairs : List (Key × α)) : ofPairs pairs = overlaid pairs := by
  obtain ⟨hk, hf⟩ := filterMap_spec (f := fun k => find? k pairs.reverse)
    (fun k hk => isSome_find?_reverse (Key.isAmong_of_mem (mem_of_mem_distinctKeys hk)))
    (keysDiffer_distinctKeys (keys pairs))
  refine eq_of_find? ((keys_ofPairs pairs).trans hk.symm) (keysDiffer_ofPairs pairs)
    fun key hm => ?_
  rw [keys_ofPairs] at hm
  rw [find?_ofPairs, overlaid, hf key hm]

/-- Merging what was made of some pairs is merging the pairs. -/
theorem merge_ofPairs {entries : Entries α} (h : KeysDiffer (keys entries))
    (pairs : List (Key × α)) : merge entries (ofPairs pairs) = merge entries pairs := by
  have hkeys : distinctKeys (keys (ofPairs pairs)) = distinctKeys (keys pairs) := by
    rw [distinctKeys_eq_self (keysDiffer_ofPairs pairs), keys_ofPairs]
  refine eq_of_find? (by rw [keys_merge, keys_merge, hkeys]) (keysDiffer_merge h) fun key _ => ?_
  rw [find?_merge key (keysDiffer_ofPairs pairs), find?_merge_reverse, find?_ofPairs]

/-- Pairs may be written in two groups that are merged afterwards. -/
theorem ofPairs_append (pairs others : List (Key × α)) :
    ofPairs (pairs ++ others) = merge (ofPairs pairs) (ofPairs others) := by
  rw [merge_ofPairs (keysDiffer_ofPairs pairs), ofPairs, ofPairs, merge, merge, merge,
    List.foldl_append]

/-- Writing the same pairs once more changes nothing. -/
theorem ofPairs_append_self (pairs : List (Key × α)) :
    ofPairs (pairs ++ pairs) = ofPairs pairs := by
  refine eq_of_find? ?_ (keysDiffer_ofPairs _) fun key _ => ?_
  · rw [keys_ofPairs, keys_ofPairs, keys_append, distinctKeys_append_self]
  · rw [find?_ofPairs, find?_ofPairs, List.reverse_append, find?_append, Option.or_self]

end Entries

end ZodSchemas
