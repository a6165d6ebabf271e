import IncrementalBuild.Types.Ty

/-!
# Shared types

A store holds each type once, as an object that names its components by number.
Every object counts its holders: handles outside, components of other objects, and
the store's own holdings. An object whose last holder lets go is queued, and
`reclaim` removes the queued objects that are still without a holder, and what was
held by those alone. Pinned objects are never removed.

Numbers grow with creation and are never used twice, so an object's components have
smaller numbers than the object.
-/

set_option autoImplicit false

namespace IncrementalBuild

/-- The number of a type object in its store. -/
abbrev TypeId : Type := Nat

/-- What a type object is, with its components by number. -/
inductive TypeForm where
  | primitive (p : Primitive)
  | int (signedness : Signedness) (bits : Nat)
  | array (element : TypeId) (length : Nat)
  | pointer (pointee : TypeId) (qualifiers : Qualifiers)
  | function (params : List TypeId) (result : TypeId) (convention : CallingConvention)
  deriving DecidableEq, Inhabited

/-- The kinds of table a store counts its objects by. -/
inductive TypeTable where
  | ints
  | arrays
  | pointers
  | functions
  deriving DecidableEq

namespace TypeForm

/-- The components a form mentions, as often as it does. -/
def components : TypeForm → List TypeId
  | .primitive _ | .int .. => []
  | .array element _ => [element]
  | .pointer pointee _ => [pointee]
  | .function params result _ => params ++ [result]

/-- The table a form is counted in; primitives are counted in none. -/
def table? : TypeForm → Option TypeTable
  | .primitive _ => none
  | .int .. => some .ints
  | .array .. => some .arrays
  | .pointer .. => some .pointers
  | .function .. => some .functions

end TypeForm

/-- A type object. -/
structure TypeObject where
  id : TypeId
  form : TypeForm
  holders : Nat
  isPinned : Bool
  deriving DecidableEq, Inhabited

/-- The objects of a store, oldest first, the number of the next one, the objects waiting
to be reclaimed, and the tables of all objects ever created. -/
structure TypeStore where
  objects : List TypeObject := []
  next : TypeId := 0
  queue : List TypeId := []
  created : List TypeTable := []
  /-- A closed store creates nothing, and removes an object with its last holder. -/
  isClosed : Bool := false
  deriving Inhabited

namespace TypeStore

/-- The object with a number. -/
def get? (s : TypeStore) (id : TypeId) : Option TypeObject := s.objects.find? (·.id == id)

/-- The object of a form. -/
def find? (s : TypeStore) (form : TypeForm) : Option TypeObject :=
  s.objects.find? (·.form == form)

/-- Changes the object with a number and leaves every other one as it is. -/
def modify (s : TypeStore) (id : TypeId) (f : TypeObject → TypeObject) : TypeStore :=
  { s with objects := s.objects.map fun o => if o.id = id then f o else o }

/-- The number of holders of an object. -/
def holders (s : TypeStore) (id : TypeId) : Nat := ((s.get? id).map (·.holders)).getD 0

/-- Adds a holder of an object. -/
def retain (s : TypeStore) (id : TypeId) : TypeStore :=
  s.modify id fun o => { o with holders := o.holders + 1 }

/-- Takes a holder of an object away. If it was the last one and the object is not pinned,
the object is queued. -/
def releaseOnly (s : TypeStore) (id : TypeId) : TypeStore :=
  match s.get? id with
  | none => s
  | some o =>
    let s := s.modify id fun o => { o with holders := o.holders - 1 }
    if o.holders = 1 && !o.isPinned && !s.isClosed then { s with queue := s.queue ++ [id] }
    else s

/-- Takes away a holder for each of the given numbers, in order. -/
def releaseAll (s : TypeStore) (ids : List TypeId) : TypeStore := ids.foldl releaseOnly s

/-- Removes the objects a test picks, and lets go of their components. -/
def removeWhere (s : TypeStore) (gone : TypeObject → Bool) : TypeStore :=
  let removed := s.objects.filter gone
  let kept : TypeStore := { s with objects := s.objects.filter (!gone ·) }
  kept.releaseAll (removed.flatMap fun o => o.form.components)

/-- Letting go of an object removes none. -/
theorem length_objects_releaseOnly (s : TypeStore) (id : TypeId) :
    (s.releaseOnly id).objects.length = s.objects.length := by
  unfold releaseOnly
  split
  · rfl
  · simp only [modify]
    split <;> simp

/-- Letting go of objects removes none. -/
theorem length_objects_releaseAll (s : TypeStore) (ids : List TypeId) :
    (s.releaseAll ids).objects.length = s.objects.length := by
  induction ids generalizing s with
  | nil => rfl
  | cons id ids ih =>
    simp only [releaseAll, List.foldl_cons] at ih ⊢
    rw [ih, length_objects_releaseOnly]

/-- Removing objects leaves those the test does not pick. -/
theorem length_objects_removeWhere (s : TypeStore) (gone : TypeObject → Bool) :
    (s.removeWhere gone).objects.length = (s.objects.filter (!gone ·)).length := by
  simp [removeWhere, length_objects_releaseAll]

/-- If a test picks an object, fewer remain. -/
theorem length_filter_not_lt {gone : TypeObject → Bool} {l : List TypeObject}
    (h : l.any gone = true) : (l.filter (!gone ·)).length < l.length := by
  refine List.length_filter_lt_length_iff_exists.2 ?_
  obtain ⟨o, ho, hgone⟩ := List.any_eq_true.1 h
  exact ⟨o, ho, by simp [hgone]⟩

/-- Whether an object has no holder and may be removed. -/
def isDead (o : TypeObject) : Bool := !o.isPinned && o.holders == 0

/-- Whether an object is dead and waits in the queue. -/
def isReclaimable (s : TypeStore) (o : TypeObject) : Bool := isDead o && s.queue.contains o.id

/-- Removes every queued object that has no holder, then those that are queued because of
it, until the queue is empty. -/
def reclaim (s : TypeStore) : TypeStore :=
  if s.objects.any s.isReclaimable then
    let emptied : TypeStore := { s with queue := [] }
    reclaim (emptied.removeWhere s.isReclaimable)
  else { s with queue := [] }
termination_by s.objects.length
decreasing_by
  rename_i h
  rw [length_objects_removeWhere]
  exact length_filter_not_lt h

/-- The objects reclaiming removes, in the order of its rounds. -/
def reclaimed (s : TypeStore) : List TypeObject :=
  if s.objects.any s.isReclaimable then
    let emptied : TypeStore := { s with queue := [] }
    s.objects.filter s.isReclaimable ++ reclaimed (emptied.removeWhere s.isReclaimable)
  else []
termination_by s.objects.length
decreasing_by
  rename_i h
  rw [length_objects_removeWhere]
  exact length_filter_not_lt h

/-- The number of objects reclaiming removes. -/
def reclaimCount (s : TypeStore) : Nat := s.reclaimed.length

/-- Removes every object without a holder, pinned or not, and what only those held. -/
def collect (s : TypeStore) : TypeStore :=
  let gone := fun o : TypeObject => o.holders == 0
  if s.objects.any gone then collect (s.removeWhere gone) else s
termination_by s.objects.length
decreasing_by
  rename_i h
  rw [length_objects_removeWhere]
  exact length_filter_not_lt h

/-- Lets go of a handle. -/
def release (s : TypeStore) (id : TypeId) : TypeStore :=
  let s := s.releaseOnly id
  if s.isClosed then s.collect else s

/-- Creates an object, held once, that holds its components. -/
def create (s : TypeStore) (form : TypeForm) (isPinned : Bool) : TypeId × TypeStore :=
  let id := s.next
  let s := form.components.foldl retain s
  (id, { s with
    objects := s.objects ++ [{ id, form, holders := 1, isPinned }]
    next := id + 1
    created := s.created ++ form.table?.toList })

/-- The object of a form, with one holder more: the one the store has, or a new one. -/
def intern (s : TypeStore) (form : TypeForm) : TypeId × TypeStore :=
  match s.find? form with
  | some o => (o.id, s.retain o.id)
  | none => s.create form false

/-- The widths every store has from the start, in order of creation. -/
def commonWidths : List Nat := [8, 16, 32, 64, 128, 1]

/-- The integer types every store has from the start, in order of creation. -/
def commonInts : List TypeForm :=
  commonWidths.flatMap fun bits => [.int .signed bits, .int .unsigned bits]

/-- The objects a store holds itself: each primitive once, and the type of each primitive
value once more. -/
def ownHoldings (s : TypeStore) : List TypeId :=
  let primitives := Primitive.all ++ PrimitiveValue.all.map PrimitiveValue.type
  primitives.filterMap fun p => (s.find? (.primitive p)).map (·.id)

/-- A new store: the primitives, which it holds, the common integer types, which it does
not, and the types of the primitive values, which it holds again. -/
def initial : TypeStore :=
  let s := Primitive.all.foldl (fun s p => (s.create (.primitive p) true).2) {}
  let s := commonInts.foldl
    (fun s form => let (id, s) := s.create form true; s.releaseOnly id) s
  PrimitiveValue.all.foldl (fun s v => (s.intern (.primitive v.type)).2) s

/-- The handle of a primitive. -/
def primitive (s : TypeStore) (p : Primitive) : TypeId × TypeStore := s.intern (.primitive p)

/-- The handle of the type a name denotes, if it denotes one. An error leaves the store as
it was. -/
def named? (s : TypeStore) (name : String) : Except WidthError (Option (TypeId × TypeStore)) :=
  (NamedType.ofName? name).map fun type => type.map fun
    | .primitive p => s.intern (.primitive p)
    | .int sign bits => s.intern (.int sign bits)

/-- Closes a store: it lets go of its own holdings and of every object nobody else holds. -/
def close (s : TypeStore) : TypeStore :=
  let own := s.ownHoldings
  let closed : TypeStore := { s with isClosed := true, queue := [] }
  (closed.releaseAll own).collect

/-- The type an object stands for, unfolded at most `fuel` layers deep. -/
def denoteWithin (s : TypeStore) : (fuel : Nat) → TypeId → Option Ty
  | 0, _ => none
  | fuel + 1, id => do
    let o ← s.get? id
    match o.form with
    | .primitive p => return .primitive p
    | .int sign bits => return .int sign bits
    | .array element length => return .array (← s.denoteWithin fuel element) length
    | .pointer pointee q => return .pointer (← s.denoteWithin fuel pointee) q
    | .function params result convention =>
      return .function (← params.mapM (s.denoteWithin fuel)) (← s.denoteWithin fuel result) convention

/-- The type an object stands for. Components have smaller numbers, so a type has no more
layers than its number says. -/
def denote? (s : TypeStore) (id : TypeId) : Option Ty := s.denoteWithin (id + 1) id

/-- The written form of the type an object stands for. -/
def text (s : TypeStore) (id : TypeId) : String := ((s.denote? id).map Ty.text).getD ""

/-- The number of objects of a table. -/
def liveCount (s : TypeStore) (table : TypeTable) : Nat :=
  s.objects.countP (·.form.table? == some table)

/-- The number of objects of a table that were ever created. -/
def createdCount (s : TypeStore) (table : TypeTable) : Nat := s.created.count table

end TypeStore

end IncrementalBuild
