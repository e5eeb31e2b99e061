/-! Finite maps as lists of bindings in the order of first insertion. -/
namespace LoopSafety

structure Table (κ α : Type) where
  entries : List (κ × α)

namespace Table

variable {κ α : Type}

instance : EmptyCollection (Table κ α) := ⟨⟨[]⟩⟩
instance : Inhabited (Table κ α) := ⟨∅⟩

def keys (t : Table κ α) : List κ := t.entries.map (·.1)

def size (t : Table κ α) : Nat := t.entries.length

variable [DecidableEq κ]

def lookup : List (κ × α) → κ → Option α
  | [], _ => none
  | (k, v) :: rest, key => if k = key then some v else lookup rest key

def put : List (κ × α) → κ → α → List (κ × α)
  | [], key, value => [(key, value)]
  | (k, v) :: rest, key, value =>
    if k = key then (key, value) :: rest else (k, v) :: put rest key value

def get? (t : Table κ α) (key : κ) : Option α := lookup t.entries key

def contains (t : Table κ α) (key : κ) : Bool := (t.get? key).isSome

/-- Bind a key; an earlier binding of it is replaced where it stands. -/
def insert (t : Table κ α) (key : κ) (value : α) : Table κ α := ⟨put t.entries key value⟩

/-- Later bindings win. -/
def insertAll (t : Table κ α) (bindings : List (κ × α)) : Table κ α :=
  bindings.foldl (fun t b => t.insert b.1 b.2) t

def ofList (bindings : List (κ × α)) : Table κ α := (∅ : Table κ α).insertAll bindings

/-- The bindings in ascending order of a rank of their keys. -/
def sortedBy (t : Table κ α) (rank : κ → Nat) : List (κ × α) :=
  t.entries.mergeSort fun a b => rank a.1 ≤ rank b.1

omit [DecidableEq κ] in
@[simp] theorem entries_empty : (∅ : Table κ α).entries = [] := rfl

@[simp] theorem get?_empty (key : κ) : (∅ : Table κ α).get? key = none := rfl

theorem lookup_put (entries : List (κ × α)) (key key' : κ) (value : α) :
    lookup (put entries key value) key' =
      if key = key' then some value else lookup entries key' := by
  induction entries with
  | nil => simp [put, lookup]
  | cons b rest ih =>
    obtain ⟨k, v⟩ := b
    by_cases h : k = key
    · subst h
      by_cases h' : k = key' <;> simp [put, lookup, h']
    · by_cases h' : k = key'
      · subst h'
        simp [put, lookup, h, Ne.symm h]
      · simp [put, lookup, h, h', ih]

@[simp] theorem get?_insert (t : Table κ α) (key key' : κ) (value : α) :
    (t.insert key value).get? key' = if key = key' then some value else t.get? key' :=
  lookup_put t.entries key key' value

theorem keys_put (entries : List (κ × α)) (key : κ) (value : α) :
    (put entries key value).map (·.1) =
      if key ∈ entries.map (·.1) then entries.map (·.1) else entries.map (·.1) ++ [key] := by
  induction entries with
  | nil => rfl
  | cons b rest ih =>
    obtain ⟨k, v⟩ := b
    by_cases hk : k = key
    · simp [put, hk]
    · rw [put, if_neg hk, List.map_cons, ih]
      simp only [List.map_cons, List.mem_cons, Ne.symm hk, false_or]
      split <;> rfl

/-- A new key comes last. -/
theorem keys_insert (t : Table κ α) (key : κ) (value : α) :
    (t.insert key value).keys = if key ∈ t.keys then t.keys else t.keys ++ [key] :=
  keys_put t.entries key value

end Table

end LoopSafety
