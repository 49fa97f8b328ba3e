import ArithLexer.Buffer
import Mathlib.Logic.Function.Basic

/-!
# Shelves of buffers

A shelf holds buffers under names. They are made, copied, exchanged, changed,
asked and compared in any order, and so can be any other kind of sequence that
knows how to do these things (`Interface`). A view of one kind as another under
which every single operation comes to the same (`Refines`) carries over to all
runs (`run_map`). For the items of a buffer this is `buffers_refine_lists`:
whatever its capacity, a buffer cannot be told from a plain list.

A name that an operation does not mention keeps what it holds (`run_frame`), so
a copy and its original go their own ways.
-/

namespace ArithLexer
namespace Buffer

/-- How a sequence comes about. A requested capacity comes with what the memory can cover
just then. -/
inductive Origin (α : Type) where
  | empty
  | withCapacity (requested : Nat) (reserve : Reserve)
  | ofList (items : List α)

/-- What changes a sequence. -/
inductive Change (α : Type) where
  | push (item : α)
  | extend (items : List α)
  | set (index : Nat) (item : α)
  | clear
  | release

/-- What can be asked of a shelf. To consume a sequence is to read its items and to drop it. -/
inductive Operation (α : Type) where
  | create (name : Nat) (origin : Origin α)
  | copy (source target : Nat)
  | exchange (first second : Nat)
  | change (name : Nat) (c : Change α)
  | get (name index : Nat)
  | lookup (name index : Nat)
  | items (name : Nat)
  | consume (name : Nat)
  | compare (first second : Nat)

/-- The names that may hold something else after an operation. -/
def Operation.changed {α : Type} : Operation α → List Nat
  | .create name _ => [name]
  | .copy _ target => [target]
  | .exchange first second => [first, second]
  | .change name _ => [name]
  | .consume name => [name]
  | .get .. | .lookup .. | .items _ | .compare .. => []

/-- What comes of an operation. -/
inductive Reply (α : Type) where
  | done
  | item (found : α)
  | items (found : List α)
  | verdict (equal : Bool)
  | outside (cause : IndexError)
  | failed (fault : Fault)
  /-- The name holds nothing. -/
  | absent
  deriving DecidableEq

/-- A kind of sequence: how one is made, changed, asked and compared with another. -/
structure Interface (α σ : Type) where
  create : Origin α → σ
  change : Change α → σ → Except Fault σ
  get : σ → Nat → Except Fault α
  lookup : σ → Nat → Except IndexError α
  items : σ → List α
  equal : σ → σ → Bool

/-- Sequences under their names. -/
abbrev Shelf (σ : Type) := Nat → Option σ

namespace Shelf

variable {σ τ α : Type}

def vacant : Shelf σ := fun _ => none

def map (view : σ → τ) (shelf : Shelf σ) : Shelf τ := Option.map view ∘ shelf

/-- Asks the sequence that a name holds. -/
def ask (shelf : Shelf σ) (name : Nat) (question : σ → Reply α) : Reply α :=
  match shelf name with
  | none => .absent
  | some s => question s

theorem map_update (view : σ → τ) (shelf : Shelf σ) (name : Nat) (s : Option σ) :
    map view (Function.update shelf name s) =
      Function.update (map view shelf) name (s.map view) :=
  Function.comp_update _ _ _ _

theorem ask_map (view : σ → τ) (shelf : Shelf σ) (name : Nat) (question : τ → Reply α) :
    (map view shelf).ask name question = shelf.ask name (question ∘ view) := by
  unfold ask map
  rw [Function.comp_apply]
  cases shelf name <;> rfl

end Shelf

section Run

variable {α σ τ : Type} (kind : Interface α σ)

/-- The reply to an operation, and the shelf after it. -/
def perform (op : Operation α) (shelf : Shelf σ) : Reply α × Shelf σ :=
  match op with
  | .create name origin => (.done, Function.update shelf name (some (kind.create origin)))
  | .copy source target => (.done, Function.update shelf target (shelf source))
  | .exchange first second =>
    (.done, Function.update (Function.update shelf first (shelf second)) second (shelf first))
  | .change name c =>
    match shelf name with
    | none => (.absent, shelf)
    | some s =>
      match kind.change c s with
      | .error fault => (.failed fault, shelf)
      | .ok t => (.done, Function.update shelf name (some t))
  | .get name index =>
    (shelf.ask name fun s =>
      match kind.get s index with
      | .ok item => .item item
      | .error fault => .failed fault, shelf)
  | .lookup name index =>
    (shelf.ask name fun s =>
      match kind.lookup s index with
      | .ok item => .item item
      | .error cause => .outside cause, shelf)
  | .items name => (shelf.ask name fun s => .items (kind.items s), shelf)
  | .consume name =>
    (shelf.ask name fun s => .items (kind.items s), Function.update shelf name none)
  | .compare first second =>
    (shelf.ask first fun s => shelf.ask second fun t => .verdict (kind.equal s t), shelf)

/-- The replies to some operations one after the other, and the shelf after them. -/
def run : List (Operation α) → Shelf σ → List (Reply α) × Shelf σ
  | [], shelf => ([], shelf)
  | op :: ops, shelf =>
    let (reply, shelf) := perform kind op shelf
    let (replies, shelf) := run ops shelf
    (reply :: replies, shelf)

/-! ### What an operation leaves alone -/

section Frame

variable {kind} {op : Operation α} {ops : List (Operation α)} {name : Nat}

theorem perform_frame (hop : name ∉ op.changed) (shelf : Shelf σ) :
    (perform kind op shelf).2 name = shelf name := by
  cases op with
  | create k origin => exact Function.update_of_ne (by simpa [Operation.changed] using hop) _ _
  | copy source target => exact Function.update_of_ne (by simpa [Operation.changed] using hop) _ _
  | exchange first second =>
    obtain ⟨hfirst, hsecond⟩ : name ≠ first ∧ name ≠ second := by
      simpa [Operation.changed] using hop
    exact (Function.update_of_ne hsecond _ _).trans (Function.update_of_ne hfirst _ _)
  | change k c =>
    have hne : name ≠ k := by simpa [Operation.changed] using hop
    unfold perform
    dsimp only
    split
    · rfl
    · split
      · rfl
      · exact Function.update_of_ne hne _ _
  | consume k => exact Function.update_of_ne (by simpa [Operation.changed] using hop) _ _
  | get k index => rfl
  | lookup k index => rfl
  | items k => rfl
  | compare first second => rfl

theorem run_frame (hops : ∀ op ∈ ops, name ∉ op.changed) (shelf : Shelf σ) :
    (run kind ops shelf).2 name = shelf name := by
  induction ops generalizing shelf with
  | nil => rfl
  | cons op ops ih =>
    obtain ⟨hop, hops⟩ := List.forall_mem_cons.mp hops
    exact (ih hops _).trans (perform_frame hop shelf)

end Frame

/-! ### What every operation keeps -/

section Invariant

variable {kind} {P : σ → Prop}

/-- What holds of every sequence that is made, and is kept by every change, holds of whatever a
name comes to hold. -/
theorem perform_forall (hcreate : ∀ origin, P (kind.create origin))
    (hchange : ∀ c s t, P s → kind.change c s = .ok t → P t) {shelf : Shelf σ}
    (hshelf : ∀ name s, shelf name = some s → P s) (op : Operation α) (name : Nat) (s : σ)
    (hs : (perform kind op shelf).2 name = some s) : P s := by
  -- every name holds what some name held, or what the operation put there
  have hupdate : ∀ (shelf : Shelf σ) k (t : Option σ), (∀ name s, shelf name = some s → P s) →
      (∀ s, t = some s → P s) → ∀ name s, Function.update shelf k t name = some s → P s := by
    intro shelf k t hshelf ht name s hs
    by_cases hk : name = k
    · subst hk
      rw [Function.update_self] at hs
      exact ht s hs
    · rw [Function.update_of_ne hk] at hs
      exact hshelf name s hs
  cases op with
  | create k origin =>
    apply hupdate shelf k _ hshelf _ name s hs
    intro t ht
    cases ht
    exact hcreate origin
  | copy source target => exact hupdate shelf target _ hshelf (hshelf source) name s hs
  | exchange first second =>
    exact hupdate _ second _ (hupdate shelf first _ hshelf (hshelf second)) (hshelf first) name s hs
  | change k c =>
    unfold perform at hs
    dsimp only at hs
    split at hs
    · exact hshelf name s hs
    · next old hold =>
      split at hs
      · exact hshelf name s hs
      · next t ht =>
        apply hupdate shelf k _ hshelf _ name s hs
        intro u hu
        cases hu
        exact hchange c old t (hshelf k old hold) ht
  | consume k => exact hupdate shelf k none hshelf (by simp) name s hs
  | get k index => exact hshelf name s hs
  | lookup k index => exact hshelf name s hs
  | items k => exact hshelf name s hs
  | compare first second => exact hshelf name s hs

theorem run_forall (hcreate : ∀ origin, P (kind.create origin))
    (hchange : ∀ c s t, P s → kind.change c s = .ok t → P t) {shelf : Shelf σ}
    (hshelf : ∀ name s, shelf name = some s → P s) (ops : List (Operation α)) (name : Nat) (s : σ)
    (hs : (run kind ops shelf).2 name = some s) : P s := by
  induction ops generalizing shelf with
  | nil => exact hshelf name s hs
  | cons op ops ih => exact ih (perform_forall hcreate hchange hshelf op) hs

end Invariant

/-! ### One kind seen as another -/

/-- A view under which one kind of sequence does what another does. -/
structure Refines (view : σ → τ) (impl : Interface α σ) (spec : Interface α τ) : Prop where
  create : ∀ origin, view (impl.create origin) = spec.create origin
  change : ∀ c s, (impl.change c s).map view = spec.change c (view s)
  get : ∀ s index, impl.get s index = spec.get (view s) index
  lookup : ∀ s index, impl.lookup s index = spec.lookup (view s) index
  items : ∀ s, impl.items s = spec.items (view s)
  equal : ∀ s t, impl.equal s t = spec.equal (view s) (view t)

section Refines

variable {view : σ → τ} {impl : Interface α σ} {spec : Interface α τ}

theorem perform_map (h : Refines view impl spec) (op : Operation α) (shelf : Shelf σ) :
    perform spec op (shelf.map view) =
      ((perform impl op shelf).1, (perform impl op shelf).2.map view) := by
  cases op with
  | create name origin => simp only [perform, Shelf.map_update, Option.map_some, h.create]
  | copy source target => simp only [perform, Shelf.map_update]; rfl
  | exchange first second => simp only [perform, Shelf.map_update]; rfl
  | change name c =>
    have hname : shelf.map view name = (shelf name).map view := rfl
    unfold perform
    dsimp only
    rw [hname]
    cases shelf name with
    | none => rfl
    | some s =>
      have hchange := h.change c s
      dsimp only [Option.map_some]
      rw [← hchange]
      cases impl.change c s with
      | error fault => rfl
      | ok t =>
        dsimp only [Except.map]
        rw [Shelf.map_update, Option.map_some]
  | get name index => simp only [perform, Shelf.ask_map, Function.comp_def, h.get]
  | lookup name index => simp only [perform, Shelf.ask_map, Function.comp_def, h.lookup]
  | items name => simp only [perform, Shelf.ask_map, Function.comp_def, h.items]
  | consume name =>
    simp only [perform, Shelf.ask_map, Shelf.map_update, Function.comp_def, h.items,
      Option.map_none]
  | compare first second => simp only [perform, Shelf.ask_map, Function.comp_def, h.equal]

/-- A run cannot tell a sequence from its view. -/
theorem run_map (h : Refines view impl spec) (ops : List (Operation α)) (shelf : Shelf σ) :
    run spec ops (shelf.map view) = ((run impl ops shelf).1, (run impl ops shelf).2.map view) := by
  induction ops generalizing shelf with
  | nil => rfl
  | cons op ops ih => simp only [run, perform_map h, ih]

end Refines

end Run

/-! ### Buffers and lists -/

section Lists

variable {α : Type}

def Origin.create : Origin α → Buffer α
  | .empty => Buffer.empty
  | .withCapacity requested reserve => Buffer.withCapacity requested reserve
  | .ofList items => Buffer.ofList items

def Change.apply (b : Buffer α) : Change α → Except Fault (Buffer α)
  | .push item => .ok (b.push item)
  | .extend items => .ok (b.extend items)
  | .set index item => b.set index item
  | .clear => .ok b.clear
  | .release => .ok b.release

/-- Buffers as sequences. -/
def buffers [DecidableEq α] : Interface α (Buffer α) where
  create := Origin.create
  change c b := c.apply b
  get := Buffer.get
  lookup := Buffer.lookup
  items := Buffer.toList
  equal b c := b == c

/-- Plain lists as sequences. An index has to be below the length. -/
def lists [DecidableEq α] : Interface α (List α) where
  create
    | .empty => []
    | .withCapacity _ _ => []
    | .ofList items => items
  change
    | .push item, xs => .ok (xs ++ [item])
    | .extend items, xs => .ok (xs ++ items)
    | .set index item, xs =>
      if index < xs.length then .ok (xs.set index item)
      else .error (.indexOutOfBounds xs.length index)
    | .clear, _ => .ok []
    | .release, _ => .ok []
  get xs index :=
    if h : index < xs.length then .ok xs[index] else .error (.indexOutOfBounds xs.length index)
  lookup xs index := if h : index < xs.length then .ok xs[index] else .error ⟨index, xs.length⟩
  items xs := xs
  equal xs ys := decide (xs = ys)

variable {b c : Buffer α} {index : Nat}

theorem get_of_lt (h : index < b.toList.length) : b.get index = .ok b.toList[index] := by
  have hsize : index < b.items.size := by simpa [toList] using h
  simp [get, toList, hsize]

theorem get_of_le (h : b.length ≤ index) :
    b.get index = .error (.indexOutOfBounds b.length index) := by
  have hsize : b.items[index]? = none := Array.getElem?_eq_none h
  rw [get, hsize]

theorem lookup_of_lt (h : index < b.toList.length) : b.lookup index = .ok b.toList[index] := by
  have hsize : index < b.items.size := by simpa [toList] using h
  simp [lookup, toList, hsize]

theorem lookup_of_le (h : b.length ≤ index) : b.lookup index = .error ⟨index, b.length⟩ := by
  have hsize : b.items[index]? = none := Array.getElem?_eq_none h
  rw [lookup, hsize]

theorem set_of_le (h : b.length ≤ index) (item : α) :
    b.set index item = .error (.indexOutOfBounds b.length index) :=
  if_neg (Nat.not_lt.mpr h)

theorem set_of_lt (h : index < b.length) (item : α) :
    ∃ c, b.set index item = .ok c ∧ c.toList = b.toList.set index item := by
  have hset : b.set index item = .ok { b with items := b.items.setIfInBounds index item } :=
    if_pos h
  exact ⟨_, hset, toList_set b hset⟩

section Equal

variable [DecidableEq α]

theorem beq_iff : (b == c) = true ↔ b.toList = c.toList := by
  change (b.items == c.items) = true ↔ b.items.toList = c.items.toList
  rw [beq_iff_eq, Array.toList_inj]

/-- A buffer does with its items what a list does. -/
theorem buffers_refine_lists : Refines toList (buffers (α := α)) lists where
  create origin := by
    cases origin with
    | empty => exact toList_empty
    | withCapacity requested reserve => exact toList_withCapacity requested
    | ofList items => exact toList_ofList items
  change change b := by
    cases change with
    | push item => exact congrArg Except.ok (toList_push b item)
    | extend items => exact congrArg Except.ok (toList_extend b items)
    | set index item =>
      change (b.set index item).map toList = if index < b.toList.length then _ else _
      rw [length_toList]
      by_cases h : index < b.length
      · obtain ⟨c, hset, hlist⟩ := set_of_lt h item
        rw [if_pos h, hset, ← hlist]
        rfl
      · rw [if_neg h, set_of_le (Nat.not_lt.mp h)]
        rfl
    | clear => exact congrArg Except.ok (toList_clear b)
    | release => exact congrArg Except.ok (toList_release b)
  get b index := by
    change b.get index = if h : index < b.toList.length then _ else _
    by_cases h : index < b.toList.length
    · rw [dif_pos h]
      exact get_of_lt h
    · rw [dif_neg h]
      rw [length_toList] at h ⊢
      exact get_of_le (Nat.not_lt.mp h)
  lookup b index := by
    change b.lookup index = if h : index < b.toList.length then _ else _
    by_cases h : index < b.toList.length
    · rw [dif_pos h]
      exact lookup_of_lt h
    · rw [dif_neg h]
      rw [length_toList] at h ⊢
      exact lookup_of_le (Nat.not_lt.mp h)
  items _ := rfl
  equal b c := by
    change (b == c) = decide (b.toList = c.toList)
    rw [Bool.eq_iff_iff, beq_iff, decide_eq_true_iff]

theorem perform_of_le {shelf : Shelf (Buffer α)} {name : Nat} (hb : shelf name = some b)
    (h : b.length ≤ index) :
    perform buffers (.get name index) shelf =
        (.failed (.indexOutOfBounds b.length index), shelf) ∧
      (∀ item, perform buffers (.change name (.set index item)) shelf =
        (.failed (.indexOutOfBounds b.length index), shelf)) ∧
      perform buffers (.lookup name index) shelf = (.outside ⟨index, b.length⟩, shelf) := by
  refine ⟨?_, ?_, ?_⟩
  · simp only [perform, Shelf.ask, hb, buffers, get_of_le h]
  · intro item
    simp only [perform, hb, buffers, Change.apply, set_of_le h item]
  · simp only [perform, Shelf.ask, hb, buffers, lookup_of_le h]

theorem perform_of_lt {shelf : Shelf (Buffer α)} {name : Nat} (hb : shelf name = some b)
    (h : index < b.length) :
    ∃ found, b.toList[index]? = some found ∧
      perform buffers (.get name index) shelf = (.item found, shelf) ∧
      (∀ item, (perform buffers (.change name (.set index item)) shelf).1 = .done) ∧
      perform buffers (.lookup name index) shelf = (.item found, shelf) := by
  have hlist : index < b.toList.length := by rwa [length_toList]
  refine ⟨b.toList[index], List.getElem?_eq_getElem hlist, ?_, ?_, ?_⟩
  · simp only [perform, Shelf.ask, hb, buffers, get_of_lt hlist]
  · intro item
    obtain ⟨c, hset, -⟩ := set_of_lt h item
    simp only [perform, hb, buffers, Change.apply, hset]
  · simp only [perform, Shelf.ask, hb, buffers, lookup_of_lt hlist]

theorem perform_compare {shelf : Shelf (Buffer α)} {j k : Nat} (hb : shelf j = some b)
    (hc : shelf k = some c) :
    perform buffers (.compare j k) shelf = (.verdict (b == c), shelf) := by
  simp only [perform, Shelf.ask, hb, hc, buffers]

/-- Whatever is done to buffers, the same done to plain lists has the same replies, and the lists
are the items of the buffers. An index at or past the length is told of and changes nothing, any
other finds its item. What happens to a copy does not touch its original, nor the other way
round, and two buffers are equal if their items are. -/
theorem histories_match_lists (ops : List (Operation α)) :
    ∃ replies shelf, run buffers ops Shelf.vacant = (replies, shelf) ∧
      run lists ops Shelf.vacant = (replies, shelf.map toList) ∧
      (∀ name b, shelf name = some b → ∀ index,
        (b.length ≤ index →
          perform buffers (.get name index) shelf =
              (.failed (.indexOutOfBounds b.length index), shelf) ∧
            (∀ item, perform buffers (.change name (.set index item)) shelf =
              (.failed (.indexOutOfBounds b.length index), shelf)) ∧
            perform buffers (.lookup name index) shelf = (.outside ⟨index, b.length⟩, shelf)) ∧
        (index < b.length → ∃ found, b.toList[index]? = some found ∧
          perform buffers (.get name index) shelf = (.item found, shelf) ∧
          (∀ item, (perform buffers (.change name (.set index item)) shelf).1 = .done) ∧
          perform buffers (.lookup name index) shelf = (.item found, shelf))) ∧
      (∀ source target, source ≠ target → ∃ copied,
        perform buffers (.copy source target) shelf = (.done, copied) ∧ ∀ later,
          ((∀ op ∈ later, source ∉ op.changed) →
            (run buffers later copied).2 source = shelf source) ∧
          ((∀ op ∈ later, target ∉ op.changed) →
            (run buffers later copied).2 target = shelf source)) ∧
      ∀ j k b c, shelf j = some b → shelf k = some c →
        ((b == c) = true ↔ b.toList = c.toList) ∧
        perform buffers (.compare j k) shelf = (.verdict (b == c), shelf) := by
  have hlists := run_map (buffers_refine_lists (α := α)) ops Shelf.vacant
  refine ⟨_, _, rfl, hlists, ?_, ?_, ?_⟩
  · intro name b hb index
    exact ⟨perform_of_le hb, perform_of_lt hb⟩
  · intro source target hne
    refine ⟨_, rfl, ?_⟩
    intro later
    constructor
    · intro hlater
      rw [run_frame hlater]
      exact Function.update_of_ne hne _ _
    · intro hlater
      rw [run_frame hlater]
      exact Function.update_self _ _ _
  · intro j k b c hb hc
    exact ⟨beq_iff, perform_compare hb hc⟩

end Equal

/-- A copy that grows while its original is released and used again. -/
theorem histories_match_lists_of_copy :
    ∃ replies shelf b c,
      run buffers [.create 0 (.withCapacity 3 (.ofSize 8)), .change 0 (.extend [5, 7]),
        .copy 0 1, .change 0 .release, .change 0 (.push 9), .change 1 (.set 4 6)] Shelf.vacant =
          (replies, shelf) ∧
      shelf 0 = some b ∧ shelf 1 = some c ∧ b.toList = [9] ∧ c.toList = [5, 7] ∧
      perform buffers (.get 1 2) shelf = (.failed (.indexOutOfBounds 2 2), shelf) ∧
      perform buffers (.lookup 1 1) shelf = (.item 7, shelf) ∧ (b == c) = false := by
  obtain ⟨replies, shelf, hrun, -, hindex, -, hequal⟩ :=
    histories_match_lists (α := Nat) [.create 0 (.withCapacity 3 (.ofSize 8)),
      .change 0 (.extend [5, 7]), .copy 0 1, .change 0 .release, .change 0 (.push 9), .change 1 (.set 4 6)]
  have hshelf := congrArg Prod.snd hrun
  dsimp only at hshelf
  have hb : shelf 0 = some ⟨#[9], 10⟩ := by
    rw [← hshelf]
    rfl
  have hc : shelf 1 = some ⟨#[5, 7], 10⟩ := by
    rw [← hshelf]
    rfl
  obtain ⟨houtside, -⟩ := hindex 1 _ hc 2
  obtain ⟨found, hfound, -, -, hlookup⟩ := (hindex 1 _ hc 1).2 (by decide)
  cases hfound
  refine ⟨replies, shelf, _, _, hrun, hb, hc, rfl, rfl, (houtside (by decide)).1, hlookup, ?_⟩
  rw [Bool.eq_false_iff, ne_eq, (hequal 0 1 _ _ hb hc).1]
  decide

end Lists

end Buffer
end ArithLexer
