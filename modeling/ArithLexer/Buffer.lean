import ArithLexer.Fault

/-!
# Growing buffers

A buffer holds its items in order and records a capacity: how many items fit
before it has to grow. The capacity starts from a requested number, if memory
for that many items can be had, grows by half when an item is pushed into a full
buffer, and is given up only by `release`. Two buffers are equal when their
items are, whatever their capacities.

`toList_push`, `toList_extend`, `toList_set` and their neighbours describe
every operation by the list of items alone, `capacity_push` by the capacity.
-/

namespace ArithLexer

/-- An index that is not below the length. -/
structure IndexError where
  index : Nat
  length : Nat
  deriving DecidableEq, Repr

def IndexError.message (e : IndexError) : String :=
  s!"Index out of bounds: index {e.index}, length {e.length}"

/-- Items in order, and the number of items that fit without growing. -/
structure Buffer (α : Type) where
  items : Array α
  capacity : Nat
  deriving Repr

namespace Buffer

variable {α : Type}

/-- The least capacity of a buffer that holds memory. -/
def initialCapacity : Nat := 10

/-- The capacity after growing: one and a half times as large, within limits. -/
def nextCapacity (capacity : Nat) : Nat :=
  max initialCapacity (min sizeMax (capacity + capacity / 2))

/-- For which numbers of items memory can be set aside at once. -/
structure Reserve where
  covers : Nat → Bool
  le_sizeMax : ∀ count, covers count = true → count ≤ sizeMax

/-- Memory for items of so many bytes each. Items of no bytes need none. -/
def Reserve.ofSize (bytes : Nat) : Reserve where
  covers count := decide (count ≤ sizeMax ∧ bytes * count < memoryLimit)
  le_sizeMax _ h := (of_decide_eq_true h).1

/-- An empty buffer for a requested number of items. Where those cannot be set
aside it starts from the least capacity. Items are taken for words of 8 bytes
unless `reserve` says otherwise. -/
def withCapacity (requested : Nat) (reserve : Reserve := .ofSize 8) : Buffer α :=
  if reserve.covers (max requested initialCapacity) then ⟨#[], max requested initialCapacity⟩
  else ⟨#[], initialCapacity⟩

def empty : Buffer α := withCapacity initialCapacity

instance : Inhabited (Buffer α) := ⟨empty⟩

variable (b : Buffer α)

def length : Nat := b.items.size

def isEmpty : Bool := b.items.isEmpty

def toList : List α := b.items.toList

/-- Adds an item at the end. A full buffer grows first. -/
def push (item : α) : Buffer α :=
  let capacity := if b.items.size = b.capacity then nextCapacity b.capacity else b.capacity
  { items := b.items.push item, capacity }

def extend (items : List α) : Buffer α := items.foldl push b

/-- A buffer of the least capacity to which the items were added. -/
def ofList (items : List α) : Buffer α := empty.extend items

/-- The item at an index, or the index and the length that it is not below. -/
def lookup (index : Nat) : Except IndexError α :=
  match b.items[index]? with
  | some item => .ok item
  | none => .error ⟨index, b.length⟩

/-- The item at an index that has to be below the length. -/
def get (index : Nat) : Except Fault α :=
  match b.items[index]? with
  | some item => .ok item
  | none => .error (.indexOutOfBounds b.length index)

/-- Replaces the item at an index that has to be below the length. -/
def set (index : Nat) (item : α) : Except Fault (Buffer α) :=
  if index < b.items.size then .ok { b with items := b.items.setIfInBounds index item }
  else .error (.indexOutOfBounds b.length index)

def clear : Buffer α := { b with items := #[] }

/-- Drops the items and the memory that held them. -/
def release (_ : Buffer α) : Buffer α := ⟨#[], 0⟩

instance [BEq α] : BEq (Buffer α) := ⟨fun b c => b.items == c.items⟩

def describe (render : α → String) : String :=
  "[" ++ String.intercalate ", " (b.toList.map render) ++ "]"

/-- The items between brackets, each on a line of its own. -/
def describeLines (render : α → String) : String :=
  if b.isEmpty then "[]"
  else "[\n" ++ String.join (b.toList.map fun item => s!"    {render item},\n") ++ "]"

theorem toList_withCapacity (n : Nat) {reserve : Reserve} :
    (withCapacity n reserve : Buffer α).toList = [] := by
  unfold withCapacity
  split <;> rfl

theorem toList_empty : (empty : Buffer α).toList = [] := toList_withCapacity _

@[simp] theorem length_toList : b.toList.length = b.length := by simp [toList, length]

@[simp] theorem toList_push (item : α) : (b.push item).toList = b.toList ++ [item] := by
  simp [push, toList]

theorem capacity_push (item : α) :
    (b.push item).capacity =
      if b.length = b.capacity then nextCapacity b.capacity else b.capacity := rfl

@[simp] theorem toList_extend (items : List α) : (b.extend items).toList = b.toList ++ items := by
  induction items generalizing b with
  | nil => simp [extend]
  | cons item items ih =>
    have h := ih (b.push item)
    simp only [extend, List.foldl_cons] at h ⊢
    simp [h]

theorem toList_ofList (items : List α) : (ofList items).toList = items := by
  simp [ofList, toList_empty]

theorem toList_set {index : Nat} {item : α} {c : Buffer α} (h : b.set index item = .ok c) :
    c.toList = b.toList.set index item := by
  unfold set at h
  split at h
  · cases h; simp [toList]
  · cases h

@[simp] theorem toList_clear : b.clear.toList = [] := rfl

@[simp] theorem toList_release : b.release.toList = [] := rfl

end Buffer
end ArithLexer
