import Mathlib.Logic.Function.Basic

/-! Memory as blocks that have an owner. An address is handed out once, so a
block that is used after it was freed is noticed, and so is one that is freed
twice or by someone else. -/
namespace Memory

structure Block (Owner Content : Type) where
  owner : Owner
  content : Content

inductive Fault where
  | notLive
  | notOwner
  | outOfBounds
  deriving DecidableEq, Repr

structure Heap (Owner Content : Type) where
  live : Nat → Option (Block Owner Content)
  next : Nat
  fresh : ∀ address, next ≤ address → live address = none

namespace Heap

variable {Owner Content : Type}

/-- A heap is its blocks and the next address; that no block lies beyond is a fact
about these two. -/
@[ext] theorem ext {first second : Heap Owner Content} (hLive : first.live = second.live)
    (hNext : first.next = second.next) : first = second := by
  cases first
  cases second
  obtain rfl : _ = _ := hLive
  obtain rfl : _ = _ := hNext
  rfl

/-- One block changed, which is a new one only below the next address. -/
theorem fresh_update (heap : Heap Owner Content) {address next : Nat}
    {block : Option (Block Owner Content)} (hNext : heap.next ≤ next)
    (hBlock : next ≤ address → block = none) (other : Nat) (hOther : next ≤ other) :
    Function.update heap.live address block other = none := by
  by_cases hSame : other = address
  · subst hSame
    rw [Function.update_self, hBlock hOther]
  · rw [Function.update_of_ne hSame]
    exact heap.fresh other (Nat.le_trans hNext hOther)

/-- A new block takes the next address, and nothing lies beyond it. -/
theorem fresh_alloc (heap : Heap Owner Content) (block : Block Owner Content) :
    ∀ other, heap.next + 1 ≤ other →
      Function.update heap.live heap.next (some block) other = none :=
  heap.fresh_update (Nat.le_succ _) fun h => absurd h (Nat.not_succ_le_self _)

/-- Freeing a block does not make addresses beyond the next one live. -/
theorem fresh_erase (heap : Heap Owner Content) (address : Nat) :
    ∀ other, heap.next ≤ other → Function.update heap.live address none other = none :=
  heap.fresh_update (Nat.le_refl _) fun _ => rfl

/-- Nor does a change of the content of a block. -/
theorem fresh_set (heap : Heap Owner Content) (address : Nat)
    (f : Block Owner Content → Block Owner Content) :
    ∀ other, heap.next ≤ other →
      Function.update heap.live address ((heap.live address).map f) other = none :=
  heap.fresh_update (Nat.le_refl _) fun h => by rw [heap.fresh address h, Option.map_none]

/-- Zero is no address. -/
def empty : Heap Owner Content := ⟨fun _ => none, 1, fun _ _ => rfl⟩

/-- The heap with one more block, at its next address. -/
def alloc (heap : Heap Owner Content) (owner : Owner) (content : Content) : Heap Owner Content :=
  ⟨Function.update heap.live heap.next (some ⟨owner, content⟩), heap.next + 1,
    heap.fresh_alloc _⟩

def erase (heap : Heap Owner Content) (address : Nat) : Heap Owner Content :=
  ⟨Function.update heap.live address none, heap.next, heap.fresh_erase address⟩

def set (heap : Heap Owner Content) (address : Nat) (content : Content) : Heap Owner Content :=
  ⟨Function.update heap.live address
    ((heap.live address).map fun block => { block with content := content }), heap.next,
    heap.fresh_set address _⟩

def read (heap : Heap Owner Content) (address : Nat) : Except Fault Content :=
  match heap.live address with
  | none => .error .notLive
  | some block => .ok block.content

def write (heap : Heap Owner Content) (address : Nat) (content : Content) :
    Except Fault (Heap Owner Content) :=
  match heap.live address with
  | none => .error .notLive
  | some _ => .ok (heap.set address content)

/-- Only its owner frees a block. -/
def free [DecidableEq Owner] (heap : Heap Owner Content) (owner : Owner) (address : Nat) :
    Except Fault (Heap Owner Content) :=
  match heap.live address with
  | none => .error .notLive
  | some block => if block.owner = owner then .ok (heap.erase address) else .error .notOwner

variable {heap : Heap Owner Content} {address other : Nat} {owner : Owner}
  {content : Content} {block : Block Owner Content}

/-- Live addresses are among those that were handed out. -/
theorem lt_next (hLive : heap.live address = some block) : address < heap.next := by
  by_contra hNot
  rw [heap.fresh address (Nat.le_of_not_lt hNot)] at hLive
  cases hLive

/-- Reading a live block does not fail. -/
theorem read_of_live (hLive : heap.live address = some block) :
    heap.read address = .ok block.content := by
  rw [read, hLive]

/-- Writing to a live block changes its content and nothing else. -/
theorem write_of_live (hLive : heap.live address = some block) (content : Content) :
    heap.write address content = .ok (heap.set address content) := by
  rw [write, hLive]

/-- A live block can be freed by the owner that it was handed out to. -/
theorem free_of_live [DecidableEq Owner] (hLive : heap.live address = some block) :
    heap.free block.owner address = .ok (heap.erase address) := by
  rw [free, hLive]
  exact if_pos rfl

@[simp] theorem live_alloc_self :
    (heap.alloc owner content).live heap.next = some ⟨owner, content⟩ :=
  Function.update_self ..

/-- A new block leaves the others where they are. -/
theorem live_alloc_of_live (hLive : heap.live address = some block) :
    (heap.alloc owner content).live address = some block := by
  have hOther : address ≠ heap.next := Nat.ne_of_lt (lt_next hLive)
  exact (Function.update_of_ne hOther _ _).trans hLive

/-- After an allocation the live blocks are the new one and those from before. -/
theorem eq_next_or_live (hLive : (heap.alloc owner content).live address = some block) :
    address = heap.next ∨ heap.live address = some block := by
  by_cases hSame : address = heap.next
  · exact .inl hSame
  · exact .inr ((Function.update_of_ne hSame _ _).symm.trans hLive)

/-- A write keeps the owner of the block. -/
theorem live_set_self (hLive : heap.live address = some block) (content : Content) :
    (heap.set address content).live address = some { block with content := content } := by
  change Function.update heap.live address _ address = _
  rw [Function.update_self, hLive]
  rfl

/-- The frame of a write: the other blocks are as they were. -/
theorem live_set_of_ne (hOther : other ≠ address) (content : Content) :
    (heap.set address content).live other = heap.live other :=
  Function.update_of_ne hOther ..

/-- Of two writes to one block only the later one is seen. -/
theorem set_set (content content' : Content) :
    (heap.set address content).set address content' = heap.set address content' := by
  refine ext ?_ rfl
  change Function.update (Function.update heap.live address _) address
    ((Function.update heap.live address _ address).map _) = Function.update heap.live address _
  rw [Function.update_idem, Function.update_self, Option.map_map]
  rfl

/-- A block is there in between only. What happens meanwhile may allocate too,
if it frees what it allocates. -/
theorem free_of_alloc [DecidableEq Owner] {later : Heap Owner Content}
    (hLater : later.live = (heap.alloc owner content).live) :
    ∃ after, later.free owner heap.next = .ok after ∧ after.live = heap.live := by
  have hLive : later.live heap.next = some ⟨owner, content⟩ := by
    rw [hLater, live_alloc_self]
  refine ⟨later.erase heap.next, free_of_live hLive, ?_⟩
  change Function.update later.live heap.next none = heap.live
  rw [hLater]
  change Function.update (Function.update heap.live heap.next _) heap.next none = heap.live
  rw [Function.update_idem, ← heap.fresh heap.next (Nat.le_refl _), Function.update_eq_self]

end Heap

end Memory
