import ZodSchemas.Value.Calendar
import ZodSchemas.Decimal.Binary64

/-!
# Keys and entries

A key is a value that can stand as a key of a mapping or an element of a set.
Keys are told apart by what they denote: a truth value counts as the number 1
or 0, and numbers of different kinds are the same key when they are equal.
Entries keep the order in which their keys first came; writing to a key that is
present replaces its value and moves nothing.
-/

namespace ZodSchemas

/-- A value that can be looked up. -/
inductive Key where
  /-- No value. -/
  | null
  /-- A truth value. -/
  | bool (b : Bool)
  /-- An integer of any size. -/
  | int (n : Int)
  /-- A double-precision number. -/
  | float (x : Binary64)
  /-- A text. -/
  | text (t : Text)
  /-- A date. -/
  | date (d : Date)
  /-- A date with a time of day. -/
  | moment (m : Moment)
  /-- Octets. -/
  | bytes (b : List UInt8)
  /-- Two keys together. -/
  | pair (first second : Key)
deriving DecidableEq

/-- What a key denotes. -/
inductive Meaning where
  /-- No value. -/
  | null
  /-- A number or a truth value. -/
  | number (q : Quantity)
  /-- A text. -/
  | text (t : Text)
  /-- A date. -/
  | date (d : Date)
  /-- A moment without an offset. -/
  | wallClock (m : Moment)
  /-- The instant of a moment with an offset. -/
  | instant (microseconds : Int)
  /-- Octets. -/
  | bytes (b : List UInt8)
  /-- Two together. -/
  | pair (first second : Meaning)
deriving DecidableEq

namespace Key

instance : Coe Text Key := ⟨.text⟩

instance : Coe String Key := ⟨fun s => .text s⟩

/-- What a key denotes. -/
def meaning : Key → Meaning
  | .null => .null
  | .bool b => .number (.finite (if b then 1 else 0))
  | .int n => .number (.finite n)
  | .float x => .number x.quantity
  | .text t => .text t
  | .date d => .date d
  | .moment m =>
    match m.offset with
    | some _ => .instant m.instant
    | none => .wallClock m
  | .bytes b => .bytes b
  | .pair a b => .pair a.meaning b.meaning

/-- Two keys that find each other's entries. -/
def same (a b : Key) : Bool := a.meaning = b.meaning

@[simp] theorem same_self (a : Key) : a.same a = true := by simp [same]

theorem same_comm (a b : Key) : a.same b = b.same a := by
  simp [same, eq_comm]

theorem same_trans {a b c : Key} (hab : a.same b = true) (hbc : b.same c = true) :
    a.same c = true := by
  simp only [same, decide_eq_true_eq] at *
  exact hab.trans hbc

/-- Texts are the same key exactly when they are equal. -/
@[simp] theorem same_text (s t : Text) : (Key.text s).same (.text t) = decide (s = t) := by
  simp [same, meaning]

end Key

/-- Pairs of a key and what belongs to it, in the order in which the keys came. -/
abbrev Entries (α : Type) := List (Key × α)

namespace Entries

variable {α : Type}

/-- What belongs to a key. -/
def find? (key : Key) : Entries α → Option α
  | [] => none
  | (k, a) :: rest => if k.same key then some a else find? key rest

/-- Whether a key is present. -/
def has (key : Key) (entries : Entries α) : Bool := (find? key entries).isSome

/-- Write to a key: an entry that is present keeps its place and its key. -/
def put (key : Key) (a : α) : Entries α → Entries α
  | [] => [(key, a)]
  | (k, b) :: rest => if k.same key then (k, a) :: rest else (k, b) :: put key a rest

/-- Drop the entry of a key. -/
def erase (key : Key) : Entries α → Entries α
  | [] => []
  | (k, b) :: rest => if k.same key then rest else (k, b) :: erase key rest

/-- Write all entries of the second list, in order. -/
def merge (entries others : Entries α) : Entries α :=
  others.foldl (fun es e => put e.1 e.2 es) entries

/-- The entries of a list of pairs in which keys may come again. -/
def ofPairs (pairs : List (Key × α)) : Entries α := merge [] pairs

/-- The keys in order. -/
def keys (entries : Entries α) : List Key := entries.map (·.1)

/-- The values in order. -/
def values (entries : Entries α) : List α := entries.map (·.2)

/-- What is found is among the entries, under the same key. -/
theorem mem_of_find? {key : Key} {entries : Entries α} {a : α} (h : find? key entries = some a) :
    ∃ k, k.same key = true ∧ (k, a) ∈ entries := by
  induction entries with
  | nil => simp [find?] at h
  | cons e rest ih =>
    obtain ⟨k, b⟩ := e
    rw [find?] at h
    split at h
    · next hk => exact ⟨k, hk, by simp_all⟩
    · obtain ⟨k', hs, hk⟩ := ih h
      exact ⟨k', hs, List.mem_cons_of_mem _ hk⟩

/-- A key that was written is found. -/
@[simp] theorem find?_put_self (key : Key) (a : α) (entries : Entries α) :
    find? key (put key a entries) = some a := by
  induction entries with
  | nil => simp [put, find?]
  | cons e rest ih =>
    obtain ⟨k, b⟩ := e
    simp only [put]
    split
    · next h => simp [find?, h]
    · next h => simp [find?, h, ih]

/-- Other keys are left as they were. -/
theorem find?_put_of_ne {key other : Key} (h : other.same key = false) (a : α)
    (entries : Entries α) : find? other (put key a entries) = find? other entries := by
  induction entries with
  | nil => simp [put, find?, Key.same_comm key other, h]
  | cons e rest ih =>
    obtain ⟨k, b⟩ := e
    simp only [put]
    split
    · next hk =>
      have hko : k.same other = false := by
        cases hc : k.same other with
        | false => rfl
        | true =>
          rw [Key.same_comm] at hc
          exact absurd (Key.same_trans hc hk) (by simp [h])
      simp [find?, hko]
    · simp only [find?, ih]

/-- Writing to a key that is present moves nothing. -/
theorem keys_put_of_has {key : Key} (a : α) {entries : Entries α} (h : has key entries = true) :
    keys (put key a entries) = keys entries := by
  induction entries with
  | nil => simp [has, find?] at h
  | cons e rest ih =>
    obtain ⟨k, b⟩ := e
    simp only [put]
    split
    · rfl
    · next hk =>
      have hr : has key rest = true := by simpa [has, find?, hk] using h
      simpa [keys] using ih hr

/-- A new key goes to the end. -/
theorem keys_put_of_not_has {key : Key} (a : α) {entries : Entries α}
    (h : has key entries = false) : keys (put key a entries) = keys entries ++ [key] := by
  induction entries with
  | nil => rfl
  | cons e rest ih =>
    obtain ⟨k, b⟩ := e
    have hk : ¬ k.same key = true := by
      intro hs
      simp [has, find?, hs] at h
    have hr : has key rest = false := by simpa [has, find?, hk] using h
    simpa [put, hk, keys] using ih hr

end Entries

end ZodSchemas
